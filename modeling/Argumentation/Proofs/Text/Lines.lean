import Argumentation.Text.Lines
import Mathlib.Data.List.Basic

/-!
# Lines of encoded texts

A source holds bytes, and it is the bytes that are cut at line feeds. In an encoded text the bytes
of a line feed and of a carriage return stand for these characters only, as the other characters are
encoded without them. So the bytes are cut where the characters are, and each line is decoded to its
characters.
-/

namespace Argumentation.Text

section Records

variable {β : Type} [DecidableEq β] {feed carriageReturn : β}

/-- A record, reversed, without the carriage return that belongs to its end. -/
def finished (carriageReturn : β) : List β -> List β
  | last :: others => if last = carriageReturn then others else last :: others
  | [] => []

theorem recordsFrom_feed (pending rest : List β) :
    recordsFrom feed carriageReturn pending (feed :: rest) =
      (finished carriageReturn pending).reverse :: recordsFrom feed carriageReturn [] rest := by
  rw [recordsFrom.eq_def]
  exact if_pos rfl

/-- Items up to the next feed go to the current record. -/
theorem recordsFrom_append {items : List β} (unbroken : feed ∉ items) (pending rest : List β) :
    recordsFrom feed carriageReturn pending (items ++ rest) =
      recordsFrom feed carriageReturn (items.reverse ++ pending) rest := by
  induction items generalizing pending with
  | nil => rfl
  | cons item items ih =>
    rw [List.mem_cons, not_or] at unbroken
    rw [List.cons_append, recordsFrom.eq_def]
    simp only [if_neg (Ne.symm unbroken.1)]
    rw [ih unbroken.2, List.reverse_cons, List.append_assoc, List.singleton_append]

end Records

/-- The bytes of a text. -/
def encode (text : List Char) : List UInt8 :=
  text.flatMap String.utf8EncodeChar

/-- A character is either one small byte or made of large bytes. -/
theorem utf8EncodeChar_cases (character : Char) :
    (character.toNat < 128 ∧ String.utf8EncodeChar character = [UInt8.ofNat character.toNat]) ∨
      (128 <= character.toNat ∧
        forall byte, byte ∈ String.utf8EncodeChar character -> 128 <= byte.toNat) := by
  rw [String.utf8EncodeChar, Char.toNat_val]
  by_cases small : character.toNat <= 127
  · rw [if_pos small]
    exact .inl ⟨by omega, rfl⟩
  · refine .inr ⟨by omega, fun byte member => ?_⟩
    rw [if_neg small] at member
    -- two, three or four bytes, each with its highest bit set
    split at member
    · simp only [List.mem_cons, List.not_mem_nil, or_false] at member
      rcases member with rfl | rfl <;> simp only [UInt8.toNat_ofNat'] <;> omega
    · split at member <;> simp only [List.mem_cons, List.not_mem_nil, or_false] at member
      · rcases member with rfl | rfl | rfl <;> simp only [UInt8.toNat_ofNat'] <;> omega
      · rcases member with rfl | rfl | rfl | rfl <;> simp only [UInt8.toNat_ofNat'] <;> omega

/-- The byte of an ASCII character occurs in the encoding of this character only. -/
theorem mem_utf8EncodeChar_iff (plain : Char) (ascii : plain.toNat < 128) {character : Char} :
    UInt8.ofNat plain.toNat ∈ String.utf8EncodeChar character ↔ character = plain := by
  have value : (UInt8.ofNat plain.toNat).toNat = plain.toNat := by
    rw [UInt8.toNat_ofNat']
    omega
  rcases utf8EncodeChar_cases character with ⟨small, single⟩ | ⟨large, bytes⟩
  · rw [single, List.mem_singleton]
    constructor
    · intro same
      have codes := congrArg UInt8.toNat same
      rw [value, UInt8.toNat_ofNat'] at codes
      exact Char.toNat_inj.mp (by omega)
    · rintro rfl
      rfl
  · constructor
    · intro member
      have := bytes _ member
      omega
    · rintro rfl
      omega

/-- What ends with a carriage return as a text does so as bytes. -/
theorem finished_encode (pending : List Char) :
    finished 0x0D (encode pending.reverse).reverse =
      (encode (finished '\r' pending).reverse).reverse := by
  cases pending with
  | nil => rfl
  | cons last others =>
    have split : (encode (last :: others).reverse).reverse =
        (String.utf8EncodeChar last).reverse ++ (encode others.reverse).reverse := by
      simp [encode]
    by_cases isReturn : last = '\r'
    · subst isReturn
      rw [split, finished, if_pos rfl]
      rfl
    · rw [finished, if_neg isReturn, split]
      cases bytes : (String.utf8EncodeChar last).reverse with
      | nil => simp [String.utf8EncodeChar_ne_nil] at bytes
      | cons byte rest =>
        have member : byte ∈ String.utf8EncodeChar last :=
          List.mem_reverse.mp (bytes ▸ List.mem_cons_self)
        have other : byte ≠ 0x0D := by
          rintro rfl
          exact isReturn ((mem_utf8EncodeChar_iff '\r' (by decide)).mp member)
        exact if_neg other

/-- Cutting commutes with encoding. -/
theorem recordsFrom_encode (pending text : List Char) :
    recordsFrom 0x0A 0x0D (encode pending.reverse).reverse (encode text) =
      (recordsFrom '\n' '\r' pending text).map encode := by
  induction text generalizing pending with
  | nil =>
    cases pending with
    | nil => rfl
    | cons last others =>
      simp [recordsFrom, encode]
  | cons character text ih =>
    by_cases isFeed : character = '\n'
    · subst isFeed
      have first : encode ('\n' :: text) = 0x0A :: encode text := rfl
      rw [first, recordsFrom_feed, recordsFrom_feed, List.map_cons, ← ih [], finished_encode,
        List.reverse_reverse]
      rfl
    · have unbroken : (0x0A : UInt8) ∉ String.utf8EncodeChar character := fun member =>
        isFeed ((mem_utf8EncodeChar_iff '\n' (by decide)).mp member)
      have pushed : (String.utf8EncodeChar character).reverse ++ (encode pending.reverse).reverse =
          (encode (character :: pending).reverse).reverse := by
        simp [encode]
      have stepped : recordsFrom '\n' '\r' pending (character :: text) =
          recordsFrom '\n' '\r' (character :: pending) text := by
        rw [recordsFrom.eq_def]
        exact if_neg isFeed
      rw [show encode (character :: text) = String.utf8EncodeChar character ++ encode text from rfl,
        recordsFrom_append unbroken, pushed, ih, stepped]

theorem decodeLine_encode (line : List Char) :
    decodeLine (encode line) = .ok (String.ofList line) := by
  have bytes : (⟨(encode line).toArray⟩ : ByteArray) = (String.ofList line).toByteArray := by
    refine ByteArray.ext (Array.toList_inj.mp ?_)
    rw [String.toByteArray_ofList, List.utf8Encode, List.toList_data_toByteArray]
    rfl
  rw [decodeLine, bytes, String.fromUTF8?, dif_pos (String.ofList line).isValidUTF8]
  rfl

/-- The lines of an encoded text are the lines of its characters. -/
theorem linesOfBytes_toUTF8 (text : String) : linesOfBytes text.toUTF8 = linesOfText text := by
  have bytes : text.toUTF8.data.toList = encode text.toList := by
    rw [String.toUTF8, ← String.utf8Encode_toList, List.utf8Encode, List.toList_data_toByteArray]
    rfl
  have cut := recordsFrom_encode [] text.toList
  rw [linesOfBytes, bytes, show ([] : List UInt8) = (encode [].reverse).reverse from rfl, cut,
    List.map_map, linesOfText, lines]
  exact List.map_congr_left fun line _ => decodeLine_encode line

end Argumentation.Text
