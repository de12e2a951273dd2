import Argumentation.Format.Instance
import Argumentation.Format.Update

/-!
# The trivial graph format

An instance lists its arguments, one a line, then a separator line that holds a `#`, then its
attacks, one a line, as two labels with blanks between them. An update names an argument by its
label and an attack by two labels, separated by colons, as in `+4:4 1:2 4`.
-/

namespace Argumentation.Format.Tgf

open Text (isBlank trim words)

/-- Whether a character may occur in a label. -/
def isLabelCharacter (character : Char) : Bool :=
  character = '-' || character = '_' || character.isAlphanum

/-- The labels of a text that consists of labels and blanks. -/
def readLabels? (text : List Char) : Option (List String) :=
  let found := words text
  if found.all fun word => word.all isLabelCharacter then some (found.map String.ofList) else none

/-- The element that a text names. -/
def readElement? (text : List Char) : Option (Element String) :=
  match readLabels? text with
  | some [label] => some (.argument label)
  | some [attacker, attacked] => some (.attack attacker attacked)
  | _ => none

/-- The state of a reading: the framework so far, and whether the separator was met. -/
structure State where
  framework : Framework String := {}
  separated : Bool := false

/-- Handles one line. -/
def step (index : Nat) (line : String) (state : State) : Except Report State × List Warning :=
  let text := line.toList
  if text.all isBlank then (.ok state, [])
  else if trim text = ['#'] then
    (.ok { state with separated := true },
      if state.separated then [⟨index + 1, "ignoring a second separator line"⟩] else [])
  else
    let extended := match state.separated, readElement? text with
      | true, some (.attack attacker attacked) =>
        refusable (state.framework.addAttack attacker attacked)
      | true, _ => .error (.ofText (.invalidAttackLine line))
      | false, some (.argument label) => refusable (state.framework.addArgument label)
      | false, _ => .error (.ofText (.invalidArgumentLine line))
    (extended.map fun framework => { state with framework }, [])

/-- Reads an instance. -/
def read (lines : List Text.Line) : Reading :=
  readLines step (fun state => .ok state.framework) 0 {} lines

/-- Reads an update line, whose items hold no line feed. -/
def readUpdate (line : String) : Except Report (List (Patch String)) :=
  during (updateActivity line.toList) <|
    match splitSign? line.toList with
    | some (enables, items) =>
      if items.contains '\n' then .error (.ofText .unsignedUpdate)
      else readItems readElement? enables (items.splitOn ':')
    | none => .error (.ofText .unsignedUpdate)

end Argumentation.Format.Tgf
