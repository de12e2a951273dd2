import Argumentation.Text.Stream

/-!
# Lines

A text is cut at each line feed, and a carriage return just before the feed belongs to the line
end. What follows the last feed is a line of its own unless it is empty, and keeps its carriage
return. The same cut applies to characters and to bytes: each line of bytes is then decoded apart,
so an invalid line spoils only itself.
-/

namespace Argumentation.Text

/-- The records of a sequence ended by `feed`; `pending` holds the current one, reversed. -/
def recordsFrom {β : Type} [DecidableEq β] (feed carriageReturn : β) (pending : List β) :
    List β -> List (List β)
  | [] => if pending.isEmpty then [] else [pending.reverse]
  | item :: rest =>
    if item = feed then
      (match pending with
        | last :: others => if last = carriageReturn then others else last :: others
        | [] => []).reverse :: recordsFrom feed carriageReturn [] rest
    else recordsFrom feed carriageReturn (item :: pending) rest

/-- The lines of a text. -/
def lines (text : List Char) : List (List Char) :=
  recordsFrom '\n' '\r' [] text

/-- A line handed over by a source: its text, or the reason why it could not be read. -/
abbrev Line := Except StreamFault String

/-- The lines of a source that holds a text. -/
def linesOfText (text : String) : List Line :=
  (lines text.toList).map fun line => .ok (String.ofList line)

/-- Decodes one line of bytes. -/
def decodeLine (bytes : List UInt8) : Line :=
  match String.fromUTF8? ⟨bytes.toArray⟩ with
  | some text => .ok text
  | none => .error .invalidEncoding

/-- The lines of a source that holds bytes. -/
def linesOfBytes (bytes : ByteArray) : List Line :=
  (recordsFrom 0x0A 0x0D [] bytes.data.toList).map decodeLine

end Argumentation.Text
