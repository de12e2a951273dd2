import Argumentation.Proofs.Format.Apx.Instances

/-!
# What ends a declaration

A declaration should end with a period, but any character except a line feed is taken in its place:
even a blank, so that a line may lack a period altogether. The character is then of no account, and
a text is read as it would be with periods in these places.
-/

namespace Argumentation.Format.Apx

open Text (Blank)

/-- What a line is read as: nothing when it is blank, and otherwise a declaration, whatever ends
it. -/
inductive Reads : List Char -> Option Declaration -> Prop
  | blank {line : List Char} (blank : Blank line) : Reads line none
  | declaration {line : List Char} {declaration : Declaration} {terminator : Char}
      (unbroken : terminator ≠ '\n') (ended : Ended terminator line declaration) :
      Reads line (some declaration)

/-- Lines that are read when there are no others. -/
def Accepted (lines : List (List Char)) : Prop :=
  ∃ framework, (read (lines.map fun line => .ok (String.ofList line))).result = .ok framework

section Lines

variable {line : List Char} {item other : Option Declaration} {declaration another : Declaration}
  {first second : Char}

theorem reads_none_iff : Reads line none ↔ Blank line := by
  constructor
  · rintro ⟨blank⟩
    exact blank
  · exact .blank

theorem reads_some_iff : Reads line (some declaration) ↔ readDeclaration line = .ok declaration := by
  rw [readDeclaration_eq_ok_iff]
  constructor
  · rintro (_ | ⟨unbroken, ended⟩)
    exact ⟨_, unbroken, ended⟩
  · rintro ⟨terminator, unbroken, ended⟩
    exact .declaration unbroken ended

/-- A line is read in one way only. -/
theorem Reads.unique (reads : Reads line item) (again : Reads line other) : item = other := by
  cases item with
  | none =>
    cases other with
    | none => rfl
    | some declaration =>
      exact absurd (reads_none_iff.mp reads) (not_blank_of_readDeclaration (reads_some_iff.mp again))
  | some declaration =>
    have found := reads_some_iff.mp reads
    cases other with
    | none => exact absurd (reads_none_iff.mp again) (not_blank_of_readDeclaration found)
    | some another =>
      cases found.symm.trans (reads_some_iff.mp again)
      rfl

/-- The character that ends a declaration is the one after the first closing parenthesis. -/
theorem Ended.terminator_eq (ended : Ended first line declaration) :
    (line.dropWhile (· ≠ ')'))[1]? = some first := by
  have closing {opening middle : List Char} (plain : ')' ∉ opening ++ middle)
      (around : Text.Padded (opening ++ middle ++ [')', first]) line) :
      (line.dropWhile (· ≠ ')'))[1]? = some first := by
    obtain ⟨before, after, blank, _, rfl⟩ := around
    have absent : ')' ∉ before ++ (opening ++ middle) := by
      simp only [List.mem_append, not_or] at plain ⊢
      exact ⟨blank.not_mem (by decide), plain⟩
    have cut := (cut_append absent (first :: after)).2
    rw [show before ++ (opening ++ middle ++ [')', first]) ++ after =
      before ++ (opening ++ middle) ++ ')' :: first :: after by simp, cut]
    rfl
  have reserved : ')' ∈ Label.reserved := by decide
  cases ended with
  | argument spells around =>
    exact closing (by simp [spells.not_mem reserved]) around
  | attack left right around =>
    exact closing (by simp [left.not_mem reserved, right.not_mem reserved]) around

theorem Ended.terminator_unique (ended : Ended first line declaration)
    (again : Ended second line another) : first = second :=
  Option.some.inj (ended.terminator_eq.symm.trans again.terminator_eq)

/-- A line that is ended by some character is a declaration when this is a period. -/
theorem Ended.exists_declares_iff (ended : Ended first line declaration) :
    (∃ declaration, Declares line declaration) ↔ first = '.' := by
  constructor
  · rintro ⟨another, declares⟩
    exact ended.terminator_unique (ended_period_iff.mpr declares)
  · rintro rfl
    exact ⟨declaration, ended_period_iff.mp ended⟩

/-- A declaration can be written with a period instead. -/
theorem Ended.exists_declares (ended : Ended first line declaration) :
    ∃ proper, Declares proper declaration := by
  cases ended with
  | argument spells => exact ⟨_, .argument spells (.refl _)⟩
  | attack left right => exact ⟨_, .attack left right (.refl _)⟩

/-- What a line is read as can be written properly, and is then handled in the same way. -/
theorem Reads.exists_holds (reads : Reads line item) :
    ∃ proper, Holds proper item ∧ forall index state,
      step index (String.ofList line) state = step index (String.ofList proper) state := by
  cases reads with
  | blank blank => exact ⟨line, .blank blank, fun _ _ => rfl⟩
  | declaration unbroken ended =>
    obtain ⟨proper, declares⟩ := ended.exists_declares
    have read := readDeclaration_eq_ok_iff.mpr ⟨_, unbroken, ended⟩
    refine ⟨proper, .declaration declares, fun index state => ?_⟩
    simp only [step, String.toList_ofList, ← Text.blank_iff_all, declares.not_blank,
      not_blank_of_readDeclaration read, read, declares.readDeclaration_eq]

end Lines

section Run

variable {lines : List (List Char)} {items : List (Option Declaration)} {state : State}
  {warnings : List Warning}

/-- A text is handled as one whose declarations are ended by periods. -/
theorem exists_forall_holds (reads : List.Forall₂ Reads lines items) :
    ∃ proper, List.Forall₂ Holds proper items ∧ List.Forall₂ (fun line other =>
      forall index state, step index (String.ofList line) state =
        step index (String.ofList other) state) lines proper := by
  induction reads with
  | nil => exact ⟨[], .nil, .nil⟩
  | cons first _ ih =>
    obtain ⟨line, holds, same⟩ := first.exists_holds
    obtain ⟨proper, held, alike⟩ := ih
    exact ⟨line :: proper, .cons holds held, .cons same alike⟩

/-- Lines that pass can be read. -/
theorem exists_reads_of_passes (passed : Passes step (.declaring []) lines state warnings) :
    ∃ items, List.Forall₂ Reads lines items := by
  induction passed with
  | start => exact ⟨[], .nil⟩
  | @line _ line _ _ _ _ _ done ih =>
    obtain ⟨items, reads⟩ := ih
    obtain ⟨item, read⟩ : ∃ item, Reads line item := by
      by_cases blank : Blank line
      · exact ⟨none, .blank blank⟩
      · cases read : readDeclaration line with
        | error fault =>
          unfold step at done
          rw [String.toList_ofList, if_neg (mt Text.blank_iff_all.mpr blank), read] at done
          cases done
        | ok declaration => exact ⟨some declaration, reads_some_iff.mpr read⟩
    exact ⟨items ++ [item], List.rel_append reads (.cons read .nil)⟩

/-- What the lines that passed are read as is known from the state that they lead to. -/
theorem reflects_of_reads (reads : List.Forall₂ Reads lines items)
    (passed : Passes step (.declaring []) lines state warnings) : Reflects items state warnings := by
  obtain ⟨proper, held, alike⟩ := exists_forall_holds reads
  exact reflects_of_passes (passed.congr alike) held

theorem exists_passes_of_reads (reads : List.Forall₂ Reads lines items) (sound : Sound items) :
    ∃ state warnings, Passes step (.declaring []) lines state warnings := by
  obtain ⟨proper, held, alike⟩ := exists_forall_holds reads
  obtain ⟨state, warnings, passed⟩ := exists_passes held sound
  refine ⟨state, warnings, passed.congr ?_⟩
  exact List.Forall₂.flip (alike.imp fun _ _ same index state => (same index state).symm)

/-- Lines that pass are accepted when the names that they declare are distinct. -/
theorem accepted_iff_nodup (reads : List.Forall₂ Reads lines items)
    (passed : Passes step (.declaring []) lines state warnings) :
    Accepted lines ↔ (items.filterMap named?).Nodup := by
  have stands := (reflects_of_reads reads passed).stands
  rw [Accepted, read, passed.readLines_eq]
  constructor
  · rintro ⟨framework, finished⟩
    obtain ⟨consistent, labels, _⟩ := stands.of_finish finished
    exact labels ▸ consistent.arguments.distinct
  · exact stands.exists_finish

/-- What is read from lines is what they declare. -/
theorem declared_of_read {framework : Framework String} (reads : List.Forall₂ Reads lines items)
    (done : (read (lines.map fun line => .ok (String.ofList line))).result = .ok framework) :
    Sound items ∧ framework.Consistent ∧ framework.arguments.labels = items.filterMap named? ∧
      framework.attackList = items.filterMap joined? := by
  rcases readLines_cases step finish (.declaring []) lines with
    ⟨state, warnings, passed, result⟩ | ⟨_, _, _, _, _, _, _, _, _, result⟩
  · have reflects := reflects_of_reads reads passed
    rw [read, result] at done
    exact ⟨reflects.sound done, reflects.stands.of_finish done⟩
  · rw [read, result] at done
    cases done

/-- Lines that are accepted can be read. -/
theorem Accepted.exists_reads (accepted : Accepted lines) :
    ∃ items, List.Forall₂ Reads lines items := by
  obtain ⟨framework, done⟩ := accepted
  rcases readLines_cases step finish (.declaring []) lines with
    ⟨state, warnings, passed, _⟩ | ⟨_, _, _, _, _, _, _, _, _, result⟩
  · exact exists_reads_of_passes passed
  · rw [read, result] at done
    cases done

/-- Lines are accepted when they can be read as declarations that fit together. -/
theorem accepted_iff : Accepted lines ↔ ∃ items, List.Forall₂ Reads lines items ∧ Sound items := by
  constructor
  · intro accepted
    obtain ⟨items, reads⟩ := accepted.exists_reads
    obtain ⟨framework, done⟩ := accepted
    exact ⟨items, reads, (declared_of_read reads done).1⟩
  · rintro ⟨items, reads, sound⟩
    obtain ⟨state, warnings, passed⟩ := exists_passes_of_reads reads sound
    exact (accepted_iff_nodup reads passed).mpr sound.distinct

end Run

/-- The lines of an encoded text are read one after the other. -/
theorem read_encoded (text : String) : read (Text.linesOfBytes text.toUTF8) =
    read ((Text.lines text.toList).map fun line => .ok (String.ofList line)) := by
  rw [Text.linesOfBytes_toUTF8]
  rfl

/-- A text is read exactly when its lines are blank or declarations that fit together, where any
character except a line feed may stand in the place of a period, and what is read is what they
declare. In a text that is read, each line that is not blank has exactly one such character, and it
is a declaration as it should be exactly when this character is a period. -/
theorem read_terminators (text : String) :
    let lines := Text.lines text.toList
    let reading := read (Text.linesOfBytes text.toUTF8)
    ((∃ framework, reading.result = .ok framework) ↔
      ∃ items, List.Forall₂ Reads lines items ∧ Sound items) ∧
    forall framework, reading.result = .ok framework ->
      (forall items, List.Forall₂ Reads lines items ->
        framework.arguments.labels = items.filterMap named? ∧
        framework.attackList = items.filterMap joined?) ∧
      forall line, line ∈ lines -> ¬ Blank line ->
        ∃ terminator declaration, terminator ≠ '\n' ∧ Ended terminator line declaration ∧
          (line.dropWhile (· ≠ ')'))[1]? = some terminator ∧
          ((∃ declaration, Declares line declaration) ↔ terminator = '.') := by
  intro lines reading
  simp only [reading, read_encoded]
  refine ⟨accepted_iff, fun framework done => ⟨fun items reads => ?_, fun line member filled => ?_⟩⟩
  · exact (declared_of_read reads done).2.2
  · obtain ⟨items, reads⟩ := Accepted.exists_reads ⟨framework, done⟩
    obtain ⟨item, _, alone⟩ := exists_right_of_mem reads member
    cases alone with
    | blank blank => exact absurd blank filled
    | declaration unbroken ended =>
      exact ⟨_, _, unbroken, ended, ended.terminator_eq, ended.exists_declares_iff⟩

/-- A letter and a blank in the place of the period. -/
theorem reads_unterminated :
    List.Forall₂ Reads (Text.lines "arg(a)x\narg(b) \n".toList)
      [some (.argument ⟨"a", false⟩), some (.argument ⟨"b", false⟩)] := by
  have lines : Text.lines "arg(a)x\narg(b) \n".toList = ["arg(a)x".toList, "arg(b) ".toList] := by
    decide
  have first : IsName "a" := ⟨'a', [], by decide, by decide, List.forall_mem_nil _⟩
  have second : IsName "b" := ⟨'b', [], by decide, by decide, List.forall_mem_nil _⟩
  have letter : Ended 'x' "arg(a)x".toList (.argument ⟨"a", false⟩) :=
    @Ended.argument _ _ ['a'] _ ⟨first, .refl _, by decide⟩ (.refl _)
  have space : Ended ' ' "arg(b) ".toList (.argument ⟨"b", false⟩) :=
    @Ended.argument _ _ ['b'] _ ⟨second, .refl _, by decide⟩ (.refl _)
  rw [lines]
  exact .cons (.declaration (by decide) letter) (.cons (.declaration (by decide) space) .nil)

/-- An instance with a letter and a blank in the place of periods. -/
theorem read_terminators_unterminated :
    ∃ framework,
      (read (Text.linesOfBytes "arg(a)x\narg(b) \n".toUTF8)).result = .ok framework ∧
      framework.arguments.labels = ["a", "b"] ∧ framework.attackList = [] ∧
      ∃ declaration, Ended ' ' "arg(b) ".toList declaration := by
  obtain ⟨accepted, described⟩ := read_terminators "arg(a)x\narg(b) \n"
  obtain ⟨framework, done⟩ := accepted.mpr
    ⟨_, reads_unterminated, by decide, by decide, by decide, by decide⟩
  obtain ⟨whole, alone⟩ := described framework done
  obtain ⟨labels, attacks⟩ := whole _ reads_unterminated
  obtain ⟨terminator, declaration, _, ended, last, _⟩ :=
    alone "arg(b) ".toList (by decide) (by decide)
  obtain rfl : ' ' = terminator := Option.some.inj last
  exact ⟨framework, done, labels, attacks, declaration, ended⟩

/-- Not every line of an instance that is read is a declaration with its period: none of these
is. -/
theorem unterminated_accepted :
    ∃ framework,
      (read (Text.linesOfBytes "arg(a)x\narg(b) \n".toUTF8)).result = .ok framework ∧
      framework.arguments.labels = ["a", "b"] ∧
      forall line, line ∈ Text.lines "arg(a)x\narg(b) \n".toList ->
        ¬ Blank line ∧ ¬ ∃ declaration, Declares line declaration := by
  have lines : Text.lines "arg(a)x\narg(b) \n".toList = ["arg(a)x".toList, "arg(b) ".toList] := by
    decide
  obtain ⟨framework, done⟩ := accepted_iff.mpr
    ⟨_, reads_unterminated, by decide, by decide, by decide, by decide⟩
  rw [read_encoded]
  refine ⟨framework, done, (declared_of_read reads_unterminated done).2.2.1, ?_⟩
  rw [lines, List.forall_mem_cons, List.forall_mem_singleton]
  refine ⟨⟨by decide, ?_⟩, by decide, ?_⟩
  · rintro ⟨_, declares⟩
    exact absurd (ended_period_iff.mpr declares).terminator_eq (by decide)
  · rintro ⟨_, declares⟩
    exact absurd (ended_period_iff.mpr declares).terminator_eq (by decide)

end Argumentation.Format.Apx
