/-!
# Stream faults

Why bytes could not be taken from a source or given to a sink. The code that the operating system
gives to a fault is part of its wording.
-/

namespace Argumentation.Text

/-- A failure of a source or of a sink. -/
inductive StreamFault where
  /-- The bytes of a line are not an encoded text. -/
  | invalidEncoding
  /-- The sink takes no more bytes. -/
  | sinkFull
  /-- The sink could not pass on what it took. -/
  | flushFailed
  /-- Nothing has the given path. -/
  | notFound
  /-- A component of the path that is used as a directory is a file. -/
  | notDirectory
  /-- The path leads to a directory, which has no lines. -/
  | isDirectory
  /-- The system refuses for another reason, which it words itself. -/
  | refused (reason : String)
  deriving DecidableEq

/-- The wording of a fault. -/
def StreamFault.message : StreamFault -> String
  | .invalidEncoding => "stream did not contain valid UTF-8"
  | .sinkFull => "sink is full"
  | .flushFailed => "flush failed"
  | .notFound => "No such file or directory (os error 2)"
  | .notDirectory => "Not a directory (os error 20)"
  | .isDirectory => "Is a directory (os error 21)"
  | .refused reason => reason

end Argumentation.Text
