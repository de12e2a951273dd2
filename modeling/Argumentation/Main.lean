import Argumentation.CommandLine.Program
import Argumentation.Sat.Search

/-!
# Entry point

The program on a real system: it reads the files that the command line names, and the standard
input when updates come from there, then shows the outputs and ends with the exit code. Its clock
stands still at the start of the program, so that of all time limits only zero seconds is reached.
-/

namespace Argumentation.CommandLine

/-- The fault of a file that the system does not let the program read. -/
def faultOf : IO.Error -> Text.StreamFault
  | .noFileOrDirectory _ _ _ => .notFound
  | .inappropriateType _ code _ => if code = 21 then .isDirectory else .notDirectory
  | error => .refused (toString error)

/-- The lines of a file. A directory can be opened, but its lines cannot be read. -/
def readFile (path : String) : IO (Except Text.StreamFault (List Text.Line)) := do
  try
    let bytes ← IO.FS.readBinFile path
    pure (.ok (Text.linesOfBytes bytes))
  catch error =>
    match faultOf error with
    | .isDirectory => pure (.ok [.error .isDirectory])
    | fault => pure (.error fault)

/-- All the bytes that a stream still holds, after those already taken from it. -/
partial def readAll (stream : IO.FS.Stream) (taken : ByteArray) : IO ByteArray := do
  let bytes ← stream.read 65536
  if bytes.isEmpty then pure taken else readAll stream (taken ++ bytes)

/-- The surroundings of an invocation: the files it names, and the standard input if it is used. -/
def surroundings (invocation : Invocation) : IO Environment := do
  let paths := [Parameter.input, .updates].filterMap invocation.value?
  let files ← paths.mapM fun path => do
    let lines ← readFile path
    pure (path, lines)
  let bytes ←
    if invocation.value? .updates = some "-" then readAll (← IO.getStdin) .empty
    else pure .empty
  let start ← IO.monoNanosNow
  pure {
    file := fun path => ((files.find? fun entry => entry.1 = path).map (·.2)).getD (.error .notFound)
    input := Text.linesOfBytes bytes
    engine := .searching
    clock := fun _ => start }

/-- Shows an output. -/
def display : Output -> IO Unit
  | .log note =>
    IO.println ("![" ++ String.ofList (note.level.name.toList.rightpad 5 ' ') ++ "] " ++ note.text)
  | .print text => IO.print text

/-- How the program is used, in lines. -/
def usage : List String :=
  [programVersion, "commands: " ++ String.intercalate ", " (Command.all.map Command.name)]

/-- Carries out a command line and gives the exit code. -/
def start (arguments : List String) : IO UInt32 := do
  match Invocation.read arguments with
  | .help =>
    usage.forM fun line => display (.log ⟨.info, line⟩)
    pure 0
  | .misuse =>
    display (.log ⟨.error, "an error occurred: error: the arguments are not understood"⟩)
    pure 1
  | .proceed invocation =>
    let conclusion := conclude (← surroundings invocation) invocation
    conclusion.outputs.forM display
    pure conclusion.exitCode.toUInt32

end Argumentation.CommandLine

def main (arguments : List String) : IO UInt32 :=
  Argumentation.CommandLine.start arguments
