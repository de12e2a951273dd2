import Argumentation.Error
import Argumentation.Text.Stream

/-!
# Failure reports

A report tells why a text could not be read, an answer could not be written or a command could not
be carried out: the cause, and what was being done, from the outermost activity inwards.
-/

namespace Argumentation

/-- What is wrong with a text. -/
inductive TextFault where
  | undefinedQuery (text : String)
  | undefinedSemantics (text : String)
  | missingHyphen
  /-- An argument declaration with something that is not a name. -/
  | invalidName (line : String)
  /-- An attack declaration with something that is not a name. -/
  | invalidNames (line : String)
  | argumentAfterAttack
  | invalidLine (line : String)
  | invalidArgumentLine (line : String)
  | invalidAttackLine (line : String)
  /-- An update without its sign, or without its period. -/
  | invalidUpdate
  /-- An update without its sign. -/
  | unsignedUpdate
  | invalidUpdateItem (item : String)
  | emptyNumber
  | invalidDigit
  | numberTooLarge
  /-- A query about an argument that was not given. -/
  | missingArgument (query : String)
  /-- A demonstration whose outcome is not the announced one. -/
  | unexpectedOutcome
  deriving DecidableEq

/-- The wording of a text fault. -/
def TextFault.message : TextFault -> String
  | .undefinedQuery text => "undefined query \"" ++ text ++ "\""
  | .undefinedSemantics text => "undefined semantics \"" ++ text ++ "\""
  | .missingHyphen => "no hyphen in problem string"
  | .invalidName line => "invalid argument name in " ++ line
  | .invalidNames line => "invalid argument names in " ++ line
  | .argumentAfterAttack => "found an argument declaration after an attack"
  | .invalidLine line => "syntax error in line \"" ++ line ++ "\""
  | .invalidArgumentLine line => "syntax error in argument line \"" ++ line ++ "\""
  | .invalidAttackLine line => "syntax error in attack line \"" ++ line ++ "\""
  | .invalidUpdate => "an update must begin with + or - and end with a period"
  | .unsignedUpdate => "an update must begin with + or -"
  | .invalidUpdateItem item => "invalid update item \"" ++ item ++ "\""
  | .emptyNumber => "cannot parse integer from empty string"
  | .invalidDigit => "invalid digit found in string"
  | .numberTooLarge => "number too large to fit in target type"
  | .missingArgument query =>
    "missing argument on the command line (required for query " ++ query ++ ")"
  | .unexpectedOutcome => "computed extensions differ from the expected ones"

/-- The root of a failure. -/
inductive Cause where
  | refused (error : Error String)
  | stream (fault : Text.StreamFault)
  | text (fault : TextFault)
  deriving DecidableEq

/-- The wording of a cause. -/
def Cause.message : Cause -> String
  | .refused error => error.message
  | .stream fault => fault.message
  | .text fault => fault.message

/-- What was being done when something failed. -/
inductive Activity where
  | parsingProblem (text : String)
  /-- Reading a line of an instance; lines are counted from zero. -/
  | readingLine (index : Nat)
  | readingUpdate (line : String)
  | writingExtension
  | writingCount
  | writingStatus
  | writingNoExtension
  | openingFile (path : String)
  | parsingArgument
  | parsingTimeout (text : String)
  | loadingFramework
  | countingExtensions
  | checkingAcceptance (label : String)
  | enumeratingExtensions
  | computingExtension
  /-- Carrying out an update line; lines are counted from one. -/
  | processingUpdate (line : Nat)
  | replayingDemo (step : Nat)
  deriving DecidableEq

/-- The wording of an activity. -/
def Activity.message : Activity -> String
  | .parsingProblem text => "while parsing problem string \"" ++ text ++ "\""
  | .readingLine index => "while reading line with index " ++ toString index
  | .readingUpdate line => "while reading update line \"" ++ line ++ "\""
  | .writingExtension => "while writing an extension"
  | .writingCount => "while writing an extension count"
  | .writingStatus => "while writing an acceptance_status"
  | .writingNoExtension => "while writing problem has no extension"
  | .openingFile path => "while opening file \"" ++ path ++ "\""
  | .parsingArgument => "while parsing the argument passed to the command line"
  | .parsingTimeout text => "while parsing the timeout \"" ++ text ++ "\""
  | .loadingFramework => "while loading the argumentation framework into the solver"
  | .countingExtensions => "while counting the extensions"
  | .checkingAcceptance label => "while checking the acceptance of \"" ++ label ++ "\""
  | .enumeratingExtensions => "while enumerating the extensions"
  | .computingExtension => "while computing an extension"
  | .processingUpdate line => "while processing the update at line " ++ toString line
  | .replayingDemo step => "while replaying demo step " ++ toString step

/-- A failure with its surroundings, the outermost activity first. -/
structure Report where
  activities : List Activity := []
  cause : Cause
  deriving DecidableEq

namespace Report

/-- A failure reported by an activity around it. -/
def within (activity : Activity) (report : Report) : Report :=
  { report with activities := activity :: report.activities }

/-- A refused operation. -/
def ofError (error : Error String) : Report := ⟨[], .refused error⟩

/-- A fault of a text. -/
def ofText (fault : TextFault) : Report := ⟨[], .text fault⟩

/-- A fault of a stream. -/
def ofStream (fault : Text.StreamFault) : Report := ⟨[], .stream fault⟩

/-- The messages of a report, from the outermost activity to the cause. -/
def messages (report : Report) : List String :=
  report.activities.map Activity.message ++ [report.cause.message]

end Report

/-- Adds an activity to the report of a failure. -/
def during {β : Type} (activity : Activity) : Except Report β -> Except Report β :=
  Except.mapError (Report.within activity)

end Argumentation
