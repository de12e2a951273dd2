import Argumentation.Patch
import Argumentation.Report
import Argumentation.Text.Blank

/-!
# Updates

An update line is a sign followed by items separated by colons. All the patches of a line have its
sign. The formats differ in the way an item names an element and in what ends a line.
-/

namespace Argumentation.Format

/-- The sign of an update and what follows it, after leading blanks. A plus enables. -/
def splitSign? (line : List Char) : Option (Bool × List Char) :=
  match Text.skipBlanks line with
  | '+' :: rest => some (true, rest)
  | '-' :: rest => some (false, rest)
  | _ => none

/-- The patches of some items. `element?` is the way the format names elements; the first item
without an element is reported without the blanks around it. -/
def readItems (element? : List Char -> Option (Element String)) (enables : Bool)
    (items : List (List Char)) : Except Report (List (Patch String)) :=
  items.mapM fun item =>
    match element? item with
    | some element => .ok (Patch.ofSign enables element)
    | none => .error (.ofText (.invalidUpdateItem (String.ofList (Text.trim item))))

/-- The activity of reading an update line, which is shown without the blanks around it. -/
def updateActivity (line : List Char) : Activity :=
  .readingUpdate (String.ofList (Text.trim line))

end Argumentation.Format
