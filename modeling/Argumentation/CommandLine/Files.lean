import Argumentation.Text.Lines

/-!
# Directory trees

The files of a working directory, by path. A path is followed component by component: what comes
before a slash must be a directory. Nothing outside the working directory is known except that its
ancestors are directories.
-/

namespace Argumentation.CommandLine

/-- The files of a directory, with their paths relative to it. -/
structure Files where
  contents : List (List String × String)

/-- Where a path has led so far. -/
inductive Place where
  | inside (path : List String)
  | outside

namespace Files

/-- Whether a path leads to a directory: some file lies below it, or it is the working directory. -/
def isDirectory (files : Files) (path : List String) : Bool :=
  path.isEmpty || files.contents.any fun entry => path.isPrefixOf entry.1 && path ≠ entry.1

/-- The text of the file with this path. -/
def text? (files : Files) (path : List String) : Option String :=
  (files.contents.find? fun entry => entry.1 = path).map (·.2)

/-- Follows one component. -/
def enter (files : Files) (place : Place) (component : String) : Except Text.StreamFault Place :=
  match place with
  | .outside => if component ∈ ["", ".", ".."] then .ok .outside else .error .notFound
  | .inside path =>
    if !files.isDirectory path then .error .notDirectory
    else if component ∈ ["", "."] then .ok place
    else if component = ".." then
      .ok (if path.isEmpty then .outside else .inside path.dropLast)
    else
      let next := path ++ [component]
      if files.isDirectory next || (files.text? next).isSome then .ok (.inside next)
      else .error .notFound

/-- The components of a path. -/
def components (path : String) : List String :=
  (path.toList.splitOn '/').map String.ofList

/-- The lines of what a path leads to. A directory can be opened, but its lines cannot be read. -/
def linesOf (files : Files) (path : String) : Except Text.StreamFault (List Text.Line) := do
  let start := if path.startsWith "/" then Place.outside else .inside []
  match ← (components path).foldlM files.enter start with
  | .outside => .ok [.error .isDirectory]
  | .inside path =>
    match files.text? path with
    | some text => .ok (Text.linesOfText text)
    | none => .ok [.error .isDirectory]

/-- The files with the given paths and texts. -/
def ofList (entries : List (String × String)) : Files :=
  ⟨entries.map fun entry => (components entry.1, entry.2)⟩

end Files

end Argumentation.CommandLine
