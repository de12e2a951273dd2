import Argumentation.Format.Basic
import Argumentation.Journal

/-!
# Invocations

What a user may write on the command line: the name of a command, then its options. An option is
given by a letter or by a long name. Its value follows as the next word, after an equals sign, or,
for a letter, at once; a word that starts with a hyphen is never the value of the option before it,
except for the hyphen alone. Options may be given once. An option that is given without a value
has its default one.

Asking for help ends the reading of the command line, unless a mistake comes first.
-/

namespace Argumentation.CommandLine

/-- The commands. -/
inductive Command where
  | authors
  | check
  | demo
  | problems
  | solve
  deriving DecidableEq

/-- The options of commands. -/
inductive Parameter where
  /-- The instance file. -/
  | input
  /-- The format of the instance and of the updates. -/
  | reader
  /-- The problem to solve. -/
  | problem
  /-- The argument that the query is about. -/
  | argument
  /-- The update file. -/
  | updates
  /-- The time allowed to each solving step. -/
  | timeout
  /-- The least important level that is logged. -/
  | loggingLevel
  deriving DecidableEq

namespace Command

/-- The commands, in alphabetical order. -/
def all : List Command :=
  [.authors, .check, .demo, .problems, .solve]

/-- The name of a command. -/
def name : Command -> String
  | .authors => "authors"
  | .check => "check"
  | .demo => "demo"
  | .problems => "problems"
  | .solve => "solve"

/-- The command with this name. -/
def ofName? (name : String) : Option Command :=
  all.find? fun command => command.name = name

/-- The options of a command. -/
def parameters : Command -> List Parameter
  | .check => [.input, .reader, .loggingLevel]
  | .solve => [.input, .reader, .problem, .argument, .updates, .timeout, .loggingLevel]
  | .authors | .demo | .problems => [.loggingLevel]

end Command

/-- The levels that the log may be limited to, with the rank of the least important one logged. -/
def thresholds : List (String × Nat) :=
  [("trace", 5), ("debug", 4), ("info", 3), ("warn", 2), ("error", 1), ("off", 0)]

namespace Parameter

/-- The letter of an option. -/
def letter? : Parameter -> Option Char
  | .input => some 'f'
  | .reader => some 'r'
  | .problem => some 'p'
  | .argument => some 'a'
  | .updates => some 'u'
  | .timeout | .loggingLevel => none

/-- The long name of an option. -/
def longName? : Parameter -> Option String
  | .reader => some "reader"
  | .updates => some "updates"
  | .timeout => some "timeout"
  | .loggingLevel => some "logging-level"
  | .input | .problem | .argument => none

/-- The value of an option that is not given. -/
def defaultValue? : Parameter -> Option String
  | .reader => some InstanceFormat.apx.name
  | .loggingLevel => some "info"
  | _ => none

/-- Whether a command with this option needs it. -/
def isRequired : Parameter -> Bool
  | .input | .problem => true
  | _ => false

/-- Whether an option may have this value. -/
def admits : Parameter -> String -> Bool
  | .reader, value => InstanceFormat.all.any fun format => format.name == value
  | .loggingLevel, value => thresholds.any fun threshold => threshold.1 == value
  | _, value => !value.isEmpty

end Parameter

/-- An option as it was given. -/
structure Given where
  parameter : Parameter
  value : Option String
  deriving DecidableEq

/-- What a word of the command line amounts to. -/
inductive Word where
  /-- The user asks for help. -/
  | help
  /-- The word is a mistake. -/
  | mistake
  /-- An option with the value that is part of the word, if any. -/
  | option (given : Given)

/-- The value that an option takes from its own word. Equals signs before it do not count, and
there must be something left. -/
def attached (parameter : Parameter) (value : List Char) : Word :=
  match value.dropWhile (· = '=') with
  | [] => .mistake
  | text => .option ⟨parameter, some (String.ofList text)⟩

/-- Reads a word that starts with two hyphens. Further hyphens do not count. -/
def readLong (parameters : List Parameter) (word : List Char) : Word :=
  let text := word.dropWhile (· = '-')
  let name := String.ofList (text.takeWhile (· ≠ '='))
  let value := text.dropWhile (· ≠ '=')
  match parameters.find? fun parameter => parameter.longName? = some name with
  | some parameter =>
    if value.isEmpty then .option ⟨parameter, none⟩ else attached parameter (value.drop 1)
  | none => if name = "help" then .help else .mistake

/-- Reads a word that starts with one hyphen, given without it. -/
def readShort (parameters : List Parameter) : List Char -> Word
  | [] => .mistake
  | letter :: rest =>
    match parameters.find? fun parameter => parameter.letter? = some letter with
    | some parameter =>
      if rest.isEmpty then .option ⟨parameter, none⟩ else attached parameter rest
    | none => if letter = 'h' then .help else .mistake

/-- Reads a word that may start an option, or nothing when the word is not of this kind. -/
def readOption? (parameters : List Parameter) (word : String) : Option Word :=
  match word.toList with
  | '-' :: '-' :: rest => some (readLong parameters ('-' :: '-' :: rest))
  | '-' :: letter :: rest => some (readShort parameters (letter :: rest))
  | _ => none

/-- The outcome of reading a command line. -/
inductive Request (β : Type) where
  | help
  | misuse
  | proceed (value : β)

/-- Reads the options of a command, given those read so far, newest first. Two hyphens alone end
the options, and no word may follow them. -/
def readOptions (parameters : List Parameter) : List Given -> List String -> Request (List Given)
  | given, [] => .proceed given.reverse
  | given, "--" :: rest => if rest.isEmpty then .proceed given.reverse else .misuse
  | given, word :: rest =>
    match readOption? parameters word, given with
    | some .help, _ => .help
    | some .mistake, _ => .misuse
    | some (.option next), given => readOptions parameters (next :: given) rest
    | none, ⟨parameter, none⟩ :: earlier =>
      readOptions parameters (⟨parameter, some word⟩ :: earlier) rest
    | none, _ => .misuse

/-- A command with the values of its options. -/
structure Invocation where
  command : Command
  values : List (Parameter × String)

namespace Invocation

/-- The value of an option. -/
def value? (invocation : Invocation) (parameter : Parameter) : Option String :=
  (invocation.values.find? fun entry => entry.1 = parameter).map (·.2)

/-- The value of an option among those given: what was written for it, or its default. Nothing is
returned for a mistake: an option given twice, one without a value, one with a value that it does
not admit, or the lack of a required one. -/
def valueAmong? (given : List Given) (parameter : Parameter) : Option (Option String) :=
  match given.filter fun entry => entry.parameter = parameter with
  | [] =>
    if parameter.isRequired then none else some parameter.defaultValue?
  | [entry] =>
    (entry.value <|> parameter.defaultValue?).bind fun value =>
      if parameter.admits value then some (some value) else none
  | _ => none

/-- The invocation of a command with the given options. -/
def ofGiven? (command : Command) (given : List Given) : Option Invocation := do
  let values ← command.parameters.mapM fun parameter =>
    (valueAmong? given parameter).map fun value => value.map fun text => (parameter, text)
  some ⟨command, values.filterMap id⟩

/-- Reads the words after the name of the program. -/
def read : List String -> Request Invocation
  | [] => .misuse
  | ["help"] => .help
  | ["help", name] =>
    if name = "help" || (Command.ofName? name).isSome then .help else .misuse
  | word :: rest =>
    match Command.ofName? word with
    | none =>
      match readOption? [] word with
      | some .help => .help
      | _ => .misuse
    | some command =>
      match readOptions command.parameters [] rest with
      | .help => .help
      | .misuse => .misuse
      | .proceed given =>
        match ofGiven? command given with
        | some invocation => .proceed invocation
        | none => .misuse

/-- The format of the instance and of the updates. -/
def format (invocation : Invocation) : InstanceFormat :=
  ((invocation.value? .reader).bind InstanceFormat.ofName?).getD .apx

/-- The rank of the least important level that is logged. -/
def threshold (invocation : Invocation) : Nat :=
  match invocation.value? .loggingLevel with
  | some name => ((thresholds.find? fun entry => entry.1 = name).map (·.2)).getD 3
  | none => 3

end Invocation

end Argumentation.CommandLine
