import Argumentation.Extension
import Argumentation.Format.Sink
import Argumentation.Report

/-!
# Answers

Each answer is a line: an extension as its labels between brackets, a number of extensions in
decimal, the acceptance of an argument as `YES` or `NO`, and the absence of extensions as `NO`.
A line is written piece by piece and then flushed.
-/

namespace Argumentation.Format

/-- An answer to a query. -/
inductive Answer (α : Type) where
  | extension (labels : Extension α)
  | count (extensions : Nat)
  | status (accepted : Bool)
  | noExtension

namespace Answer

variable {α : Type} [Label α]

/-- The texts that an extension is written as, one after the other. -/
def extensionPieces (labels : Extension α) : List String :=
  ["["]
    ++ (labels.mapIdx fun position label =>
      if position = 0 then [Label.text label] else [",", Label.text label]).flatten
    ++ ["]\n"]

/-- The texts that an answer is written as, one after the other. -/
def pieces : Answer α -> List String
  | .extension labels => extensionPieces labels
  | .count extensions => [toString extensions ++ "\n"]
  | .status accepted => [(if accepted then "YES" else "NO") ++ "\n"]
  | .noExtension => ["NO\n"]

/-- The line of an answer. -/
def line (answer : Answer α) : String :=
  String.join answer.pieces

/-- What is being done when an answer is written. -/
def activity : Answer α -> Activity
  | .extension _ => .writingExtension
  | .count _ => .writingCount
  | .status _ => .writingStatus
  | .noExtension => .writingNoExtension

/-- Writes an answer to a sink and flushes it once everything is written. -/
def writeTo (sink : Sink) (answer : Answer α) : Except Report Unit × Sink :=
  let failed := fun fault => (Report.ofStream fault).within answer.activity
  match sink.writeAll answer.pieces with
  | (.ok _, sink) =>
    let (result, sink) := sink.flush
    (result.mapError failed, sink)
  | (.error fault, sink) => (.error (failed fault), sink)

end Answer

end Argumentation.Format
