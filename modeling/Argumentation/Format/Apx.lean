import Argumentation.Format.Instance
import Argumentation.Format.Update
import Argumentation.Text.Digit

/-!
# The Aspartix format

An instance is a list of declarations, one a line: arguments as `arg(a).`, then attacks as
`att(a,b).`. The declared names start with a letter or an underscore. An update names elements in
the same way, separated by colons and ended by a period, as in `+arg(d):att(d,a).`

A declaration is recognised in two steps. A line has the shape of one when its parentheses are in
place and hold something; it is then refused when what they hold are not names. One character of
any kind except a line feed ends a declaration.
-/

namespace Argumentation.Format.Apx

open Text (skipBlanks trim isBlank)

/-- Whether a character may start a name. -/
def isNameStart (character : Char) : Bool :=
  character = '_' || character.isAlpha

/-- Whether a character may occur in a name. -/
def isNameCharacter (character : Char) : Bool :=
  isNameStart character || Text.isDigit character

/-- A name as it stands between parentheses: without the blanks around it, and whether it had
some. -/
structure WrittenName where
  name : String
  padded : Bool
  deriving DecidableEq

/-- The name that a text consists of, up to blanks around it. -/
def readName? (text : List Char) : Option WrittenName :=
  match trim text with
  | first :: rest =>
    if isNameStart first && rest.all isNameCharacter then
      some ⟨String.ofList (first :: rest), decide (rest.length + 1 ≠ text.length)⟩
    else none
  | [] => none

/-- Whether a text is a closing parenthesis, the character that ends the declaration, and blanks. -/
def endsDeclaration : List Char -> Bool
  | ')' :: terminator :: rest => terminator != '\n' && rest.all isBlank
  | _ => false

/-- What a line declares. -/
inductive Declaration where
  | argument (name : WrittenName)
  | attack (attacker attacked : WrittenName)
  deriving DecidableEq

/-- Reads what follows the opening parenthesis of an argument declaration. Nothing is returned when
the line does not have the shape of one. -/
def readArgument? (line rest : List Char) : Option (Except TextFault Declaration) :=
  let inner := rest.takeWhile (· ≠ ')')
  if inner.isEmpty || !endsDeclaration (rest.dropWhile (· ≠ ')')) then none
  else some <| match readName? inner with
    | some name => .ok (.argument name)
    | none => .error (.invalidName (String.ofList (trim line)))

/-- Reads what follows the opening parenthesis of an attack declaration. -/
def readAttack? (line rest : List Char) : Option (Except TextFault Declaration) :=
  let attacker := rest.takeWhile (· ≠ ',')
  let afterComma := (rest.dropWhile (· ≠ ',')).drop 1
  let attacked := afterComma.takeWhile (· ≠ ')')
  if attacker.isEmpty || attacked.isEmpty
      || !endsDeclaration (afterComma.dropWhile (· ≠ ')')) then none
  else some <| match readName? attacker, readName? attacked with
    | some attacker, some attacked => .ok (.attack attacker attacked)
    | _, _ => .error (.invalidNames (String.ofList (trim line)))

/-- Reads a line that is not blank. -/
def readDeclaration (line : List Char) : Except TextFault Declaration :=
  let text := skipBlanks line
  let argument? := (['a', 'r', 'g', '('].isPrefixOf? text).bind (readArgument? line)
  let attack? := (['a', 't', 't', '('].isPrefixOf? text).bind (readAttack? line)
  match argument? <|> attack? with
  | some declaration => declaration
  | none => .error (.invalidLine (String.ofList line))

/-- The state of a reading: the names declared so far, or the framework once an attack was read. -/
inductive State where
  | declaring (names : List String)
  | attacking (framework : Framework String)

/-- The framework of some declared names. -/
def declare (names : List String) : Except Report (Framework String) :=
  refusable ((ArgumentSet.ofLabels names).map Framework.ofArguments)

/-- The warnings about names that are written with blanks around them. -/
def paddingWarnings (index : Nat) (names : List WrittenName) : List Warning :=
  (names.filter WrittenName.padded).map fun _ =>
    ⟨index + 1, "argument names beginning or ending by spaces may be ambiguous"⟩

/-- Handles one line. Names are checked for repetitions when the first attack is met. -/
def step (index : Nat) (line : String) (state : State) : Except Report State × List Warning :=
  if line.toList.all isBlank then (.ok state, [])
  else
    match readDeclaration line.toList, state with
    | .error fault, _ => (.error (.ofText fault), [])
    | .ok (.argument _), .attacking _ => (.error (.ofText .argumentAfterAttack), [])
    | .ok (.argument written), .declaring names =>
      (.ok (.declaring (names ++ [written.name])), paddingWarnings index [written])
    | .ok (.attack attacker attacked), state =>
      let extended := do
        let framework ← match state with
          | .declaring names => declare names
          | .attacking framework => .ok framework
        refusable (framework.addAttack attacker.name attacked.name)
      (extended.map .attacking, paddingWarnings index [attacker, attacked])

/-- The framework of a finished reading. -/
def finish : State -> Except Report (Framework String)
  | .declaring names => declare names
  | .attacking framework => .ok framework

/-- Reads an instance. -/
def read (lines : List Text.Line) : Reading :=
  readLines step finish 0 (.declaring []) lines

/-- Whether a character may occur in a label of an update. -/
def isUpdateCharacter (character : Char) : Bool :=
  character = '_' || character.isAlphanum

/-- The label that a text consists of, up to blanks around it. -/
def readLabel? (text : List Char) : Option String :=
  let label := trim text
  if !label.isEmpty && label.all isUpdateCharacter then some (String.ofList label) else none

/-- The element that an update item names. -/
def readElement? (item : List Char) : Option (Element String) :=
  let text := trim item
  let inner? (opening : List Char) : Option (List Char) := do
    let rest ← opening.isPrefixOf? text
    if rest.getLast? = some ')' then some rest.dropLast else none
  let argument? := do
    let inner ← inner? ['a', 'r', 'g', '(']
    let label ← readLabel? inner
    some (Element.argument label)
  let attack? := do
    let inner ← inner? ['a', 't', 't', '(']
    match inner.splitOn ',' with
    | [first, second] =>
      let attacker ← readLabel? first
      let attacked ← readLabel? second
      some (Element.attack attacker attacked)
    | _ => none
  argument? <|> attack?

/-- The sign of an update line and the text of its items, which holds no line feed. -/
def splitUpdate? (line : List Char) : Option (Bool × List Char) := do
  let (enables, rest) ← splitSign? line
  let ended := Text.dropTrailingBlanks rest
  if ended.getLast? = some '.' && !ended.contains '\n' then some (enables, ended.dropLast)
  else none

/-- Reads an update line. -/
def readUpdate (line : String) : Except Report (List (Patch String)) :=
  during (updateActivity line.toList) <|
    match splitUpdate? line.toList with
    | none => .error (.ofText .invalidUpdate)
    | some (enables, items) => readItems readElement? enables (items.splitOn ':')

end Argumentation.Format.Apx
