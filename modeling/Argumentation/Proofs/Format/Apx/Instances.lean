import Argumentation.Proofs.Format.Apx.Declarations
import Argumentation.Proofs.Format.Progress
import Argumentation.Proofs.Framework.Construction

/-!
# Instances in the Aspartix format

The declared names are only collected at first: whether they are distinct is decided at the first
attack, or at the end. The attacks are decided one by one. Taken together, a text of declarations is
read exactly when it declares its names once and before the attacks, and its attacks once and
between declared names. The framework and the warnings then follow the text.
-/

namespace Argumentation.Format.Apx

open Text (Blank)

/-- What a line holds: nothing when it is blank, and otherwise a declaration. -/
inductive Holds : List Char -> Option Declaration -> Prop
  | blank {line : List Char} (blank : Blank line) : Holds line none
  | declaration {line : List Char} {declaration : Declaration}
      (declares : Declares line declaration) : Holds line (some declaration)

/-- The name that a line declares for an argument. -/
def named? : Option Declaration -> Option String
  | some (.argument written) => some written.name
  | _ => none

/-- The attack that a line declares, attacker first. -/
def joined? : Option Declaration -> Option (String × String)
  | some (.attack attacker attacked) => some (attacker.name, attacked.name)
  | _ => none

/-- The names of a line, as they are written. -/
def writtenNames : Option Declaration -> List WrittenName
  | none => []
  | some (.argument written) => [written]
  | some (.attack attacker attacked) => [attacker, attacked]

/-- No argument is declared after an attack. -/
def Ordered (items : List (Option Declaration)) : Prop :=
  items.Pairwise fun earlier later => joined? earlier = none ∨ named? later = none

instance (items : List (Option Declaration)) : Decidable (Ordered items) :=
  inferInstanceAs (Decidable (items.Pairwise fun earlier later =>
    joined? earlier = none ∨ named? later = none))

/-- Declarations that fit together: no argument is declared after an attack, no name and no attack
is declared twice, and attacks are between declared names. -/
structure Sound (items : List (Option Declaration)) : Prop where
  ordered : Ordered items
  distinct : (items.filterMap named?).Nodup
  once : (items.filterMap joined?).Nodup
  declared : forall attack, attack ∈ items.filterMap joined? ->
    attack.1 ∈ items.filterMap named? ∧ attack.2 ∈ items.filterMap named?

/-- The warnings about the names of the lines, which are counted from one. -/
def announced (items : List (Option Declaration)) : List Warning :=
  items.zipIdx.flatMap fun item => paddingWarnings item.2 (writtenNames item.1)

section Items

variable {items : List (Option Declaration)} {item : Option Declaration}

theorem filterMap_append_singleton {β γ : Type} (select : β -> Option γ) (items : List β)
    (item : β) :
    (items ++ [item]).filterMap select = items.filterMap select ++ (select item).toList := by
  rw [List.filterMap_append]
  cases selected : select item <;> simp [selected]

theorem announced_append_singleton : announced (items ++ [item]) =
    announced items ++ paddingWarnings items.length (writtenNames item) := by
  simp [announced, List.zipIdx_append]

/-- The order is kept by a line when it declares no argument or there is no attack before it. -/
theorem ordered_append_singleton : Ordered (items ++ [item]) ↔
    Ordered items ∧ (items.filterMap joined? = [] ∨ named? item = none) := by
  rw [Ordered, List.pairwise_append, List.filterMap_eq_nil_iff, ← Ordered]
  by_cases unnamed : named? item = none <;> simp [unnamed]

theorem Sound.of_append_singleton (sound : Sound (items ++ [item])) :
    Sound items ∧ (items.filterMap joined? = [] ∨ named? item = none) ∧
      forall attack, joined? item = some attack -> attack ∉ items.filterMap joined? ∧
        attack.1 ∈ items.filterMap named? ∧ attack.2 ∈ items.filterMap named? := by
  obtain ⟨ordered, distinct, once, declared⟩ := sound
  obtain ⟨ordered, alone⟩ := ordered_append_singleton.mp ordered
  simp only [filterMap_append_singleton] at distinct once declared
  -- a line with a name comes after no attack, so the attacks have their names before them
  have before : forall attack, attack ∈ items.filterMap joined? ->
      attack.1 ∈ items.filterMap named? ∧ attack.2 ∈ items.filterMap named? := by
    intro attack member
    rcases alone with none | none
    · simp [none] at member
    · simpa [none] using declared attack (List.mem_append_left _ member)
  refine ⟨⟨ordered, (List.nodup_append.mp distinct).1, (List.nodup_append.mp once).1, before⟩,
    alone, fun attack joins => ?_⟩
  have unnamed : named? item = none := by
    match item, joins with
    | some (.attack _ _), _ => rfl
  rw [joins, Option.toList_some, nodup_append_singleton] at once
  simp only [joins, unnamed, Option.toList_some, Option.toList_none, List.append_nil] at declared
  exact ⟨once.1, declared attack (by simp)⟩

end Items

section Step

variable {index : Nat} {line : List Char} {item : Option Declaration} {state later : State}
  {warnings : List Warning}

/-- What a line can do that does not fail, by what it holds. -/
inductive Advances (index : Nat) : Option Declaration -> State -> State -> List Warning -> Prop
  | blank {state : State} : Advances index none state state []
  | argument {written : WrittenName} {names : List String} :
      Advances index (some (.argument written)) (.declaring names)
        (.declaring (names ++ [written.name])) (paddingWarnings index [written])
  | attack {attacker attacked : WrittenName} {state : State} {framework later : Framework String}
      (opened : finish state = .ok framework)
      (added : framework.addAttack attacker.name attacked.name = .ok later) :
      Advances index (some (.attack attacker attacked)) state (.attacking later)
        (paddingWarnings index [attacker, attacked])

/-- An attack is added to the framework that the state would finish with. -/
theorem step_attack {attacker attacked : WrittenName}
    (declares : Declares line (.attack attacker attacked)) :
    step index (String.ofList line) state =
      ((finish state >>= fun framework =>
          refusable (framework.addAttack attacker.name attacked.name)).map .attacking,
        paddingWarnings index [attacker, attacked]) := by
  unfold step
  rw [String.toList_ofList, if_neg (mt Text.blank_iff_all.mpr declares.not_blank),
    declares.readDeclaration_eq]
  cases state <;> rfl

theorem step_argument {written : WrittenName} (declares : Declares line (.argument written)) :
    step index (String.ofList line) state =
      match state with
      | .declaring names =>
        (.ok (.declaring (names ++ [written.name])), paddingWarnings index [written])
      | .attacking _ => (.error (.ofText .argumentAfterAttack), []) := by
  unfold step
  rw [String.toList_ofList, if_neg (mt Text.blank_iff_all.mpr declares.not_blank),
    declares.readDeclaration_eq]
  cases state <;> rfl

theorem step_blank (blank : Blank line) :
    step index (String.ofList line) state = (.ok state, []) := by
  unfold step
  rw [String.toList_ofList, if_pos (Text.blank_iff_all.mp blank)]

theorem step_eq_ok_iff (holds : Holds line item) :
    step index (String.ofList line) state = (.ok later, warnings) ↔
      Advances index item state later warnings := by
  constructor
  · intro done
    cases holds with
    | blank blank =>
      cases (step_blank blank).symm.trans done
      exact .blank
    | @declaration declaration declares =>
      cases declaration with
      | argument written =>
        rw [step_argument declares] at done
        split at done
        · cases done
          exact .argument
        · cases done
      | attack attacker attacked =>
        rw [step_attack declares] at done
        obtain ⟨extended, rfl⟩ := Prod.mk.injEq .. ▸ done
        obtain ⟨later, both, rfl⟩ := map_eq_ok.mp extended
        obtain ⟨framework, opened, added⟩ := bind_eq_ok.mp both
        exact .attack opened (mapError_eq_ok.mp added)
  · intro advanced
    cases holds with
    | blank blank =>
      cases advanced
      exact step_blank blank
    | declaration declares =>
      cases advanced with
      | argument => exact step_argument declares
      | attack opened added =>
        rw [step_attack declares, opened]
        simp only [refusable, bind, Except.bind, added]
        rfl

end Step

section Finish

variable {names : List String} {attacks : List (String × String)} {state : State}
  {framework : Framework String}

/-- A state that stands for the names and the attacks that were declared so far. -/
def Stands (names : List String) (attacks : List (String × String)) : State -> Prop
  | .declaring pending => pending = names ∧ attacks = []
  | .attacking framework => attacks ≠ [] ∧ framework.Consistent ∧
      framework.arguments.labels = names ∧ framework.attackList = attacks

/-- The framework of a state has the declared names and attacks. -/
theorem Stands.of_finish (stands : Stands names attacks state)
    (finished : finish state = .ok framework) :
    framework.Consistent ∧ framework.arguments.labels = names ∧ framework.attackList = attacks := by
  cases state with
  | declaring pending =>
    obtain ⟨rfl, rfl⟩ := stands
    obtain ⟨set, listed, rfl⟩ := map_eq_ok.mp (mapError_eq_ok.mp finished)
    obtain ⟨built, labels⟩ := ArgumentSet.isBuilt_ofLabels listed
    exact ⟨.ofArguments built.consistent, labels, rfl⟩
  | attacking =>
    cases finished
    exact stands.2

/-- Distinct names are all that a framework needs at the end. -/
theorem Stands.exists_finish (stands : Stands names attacks state) (distinct : names.Nodup) :
    ∃ framework, finish state = .ok framework := by
  cases state with
  | declaring pending =>
    obtain ⟨rfl, rfl⟩ := stands
    obtain ⟨set, listed⟩ := ArgumentSet.exists_ofLabels_iff.mpr distinct
    exact ⟨.ofArguments set, by rw [finish, declare, refusable, listed]; rfl⟩
  | attacking framework => exact ⟨framework, rfl⟩

end Finish

section Run

variable {lines : List (List Char)} {items : List (Option Declaration)} {item : Option Declaration}
  {state later : State} {warnings more : List Warning}

/-- What the lines that passed have to do with the state that they lead to, by what they hold. -/
structure Reflects (items : List (Option Declaration)) (state : State) (warnings : List Warning) :
    Prop where
  ordered : Ordered items
  stands : Stands (items.filterMap named?) (items.filterMap joined?) state
  warned : warnings = announced items

theorem Reflects.advance (reflects : Reflects items state warnings)
    (advanced : Advances items.length item state later more) :
    Reflects (items ++ [item]) later (warnings ++ more) := by
  obtain ⟨ordered, stands, rfl⟩ := reflects
  refine ⟨ordered_append_singleton.mpr ⟨ordered, ?_⟩, ?_, ?_⟩
  · cases advanced with
    | blank | attack => exact .inr rfl
    | argument => exact .inl stands.2
  · rw [filterMap_append_singleton, filterMap_append_singleton]
    cases advanced with
    | blank => simpa [named?, joined?] using stands
    | argument =>
      obtain ⟨rfl, none⟩ := stands
      exact ⟨rfl, by rw [none]; rfl⟩
    | attack opened added =>
      obtain ⟨consistent, labels, attacks⟩ := stands.of_finish opened
      obtain ⟨next, _, arguments, listed⟩ := consistent.of_addAttack added
      refine ⟨by simp [joined?], next, ?_, ?_⟩
      · simpa [arguments, named?] using labels
      · rw [listed, attacks]
        rfl
  · rw [announced_append_singleton]
    cases advanced <;> rfl

/-- All that led to a state is known from it. -/
theorem reflects_of_passes (passed : Passes step (.declaring []) lines state warnings)
    (held : List.Forall₂ Holds lines items) : Reflects items state warnings := by
  induction passed generalizing items with
  | start =>
    rw [List.forall₂_nil_left_iff] at held
    subst held
    exact ⟨.nil, ⟨rfl, rfl⟩, rfl⟩
  | line _ done ih =>
    obtain ⟨before, item, rfl, held, holds⟩ := forall₂_append_singleton_left.mp held
    rw [held.length_eq] at done
    exact (ih held).advance ((step_eq_ok_iff holds).mp done)

/-- Declarations that fit together pass. -/
theorem exists_passes (held : List.Forall₂ Holds lines items) (sound : Sound items) :
    ∃ state warnings, Passes step (.declaring []) lines state warnings := by
  induction lines using List.reverseRecOn generalizing items with
  | nil => exact ⟨_, _, .start⟩
  | append_singleton lines line ih =>
    obtain ⟨before, item, rfl, held, holds⟩ := forall₂_append_singleton_left.mp held
    obtain ⟨earlier, alone, joins⟩ := sound.of_append_singleton
    obtain ⟨state, warnings, passed⟩ := ih held earlier
    have stands := (reflects_of_passes passed held).stands
    have advances : ∃ later more, Advances before.length item state later more := by
      match item with
      | none => exact ⟨_, _, .blank⟩
      | some (.argument written) =>
        cases state with
        | declaring => exact ⟨_, _, .argument⟩
        | attacking => exact absurd (alone.resolve_right (Option.some_ne_none _)) stands.1
      | some (.attack attacker attacked) =>
        obtain ⟨new, first, second⟩ := joins _ rfl
        obtain ⟨framework, opened⟩ := stands.exists_finish earlier.distinct
        obtain ⟨consistent, labels, attacks⟩ := stands.of_finish opened
        rw [← labels] at first second
        rw [← attacks] at new
        obtain ⟨_, added, _⟩ := consistent.addAttack_of_not_mem first second new
        exact ⟨_, _, .attack opened added⟩
    obtain ⟨later, more, advanced⟩ := advances
    rw [← held.length_eq] at advanced
    exact ⟨later, _, passed.line ((step_eq_ok_iff holds).mpr advanced)⟩

end Run

/-- The declarations of the lines are sound when the framework of the last state can be made. -/
theorem Reflects.sound {items : List (Option Declaration)} {state : State} {warnings : List Warning}
    {framework : Framework String} (reflects : Reflects items state warnings)
    (finished : finish state = .ok framework) : Sound items := by
  obtain ⟨consistent, labels, attacks⟩ := reflects.stands.of_finish finished
  refine ⟨reflects.ordered, labels ▸ consistent.arguments.distinct,
    attacks ▸ consistent.nodup_attackList, fun attack member => ?_⟩
  rw [← labels]
  exact Framework.ends_mem_labels (attacks ▸ member)

/-- A text of blank lines and declarations is read exactly when the declarations are sound: no
argument is declared after an attack, no name and no attack is declared twice, and attacks are
between declared names. The arguments are then the declared names in text order, numbered from zero,
and the attacks are the declared ones in text order. Each name with blanks around it gives one
warning, with the number of its line, counted from one; in text order, every handler is told of it
before the next one. -/
theorem read_declarations (text : String) (items : List (Option Declaration))
    (held : List.Forall₂ Holds (Text.lines text.toList) items) :
    let reading := read (Text.linesOfBytes text.toUTF8)
    let names := items.filterMap named?
    ((∃ framework, reading.result = .ok framework) ↔ Sound items) ∧
    forall framework, reading.result = .ok framework -> framework.Consistent ∧
      framework.arguments.toList = names.mapIdx (fun id name => ⟨id, name⟩) ∧
      (forall id name, names[id]? = some name ->
        framework.arguments.find name = .ok ⟨id, name⟩) ∧
      framework.attackList = items.filterMap joined? ∧
      forall handlers, deliveries handlers reading.warnings =
        items.zipIdx.flatMap fun (item, index) =>
          ((writtenNames item).filter WrittenName.padded).flatMap fun _ =>
            (List.range handlers).map fun handler => (handler,
              ⟨index + 1, "argument names beginning or ending by spaces may be ambiguous"⟩) := by
  intro reading names
  have source : reading = readLines step finish 0 (.declaring [])
      ((Text.lines text.toList).map fun line => .ok (String.ofList line)) := by
    simp only [reading, Text.linesOfBytes_toUTF8]
    rfl
  rcases readLines_cases step finish (.declaring []) (Text.lines text.toList) with
    ⟨state, warnings, passed, done⟩ |
    ⟨index, line, state, warnings, report, more, found, passed, failed, done⟩
  · have reflects := reflects_of_passes passed held
    rw [source, done]
    refine ⟨⟨?_, fun sound => reflects.stands.exists_finish sound.distinct⟩,
      fun framework finished => ?_⟩
    · rintro ⟨framework, finished⟩
      exact reflects.sound finished
    obtain ⟨consistent, labels, attacks⟩ := reflects.stands.of_finish finished
    refine ⟨consistent, ?_, fun id name found => ?_, attacks, fun handlers => ?_⟩
    · rw [ArgumentSet.toList, labels]
    · exact consistent.arguments.find_of_position (labels ▸ found)
    · simp only [reflects.warned, deliveries, announced, paddingWarnings, List.flatMap_assoc,
        List.flatMap_map]
  · rw [source, done]
    refine ⟨⟨?_, fun sound => ?_⟩, fun framework read => ?_⟩
    · rintro ⟨framework, read⟩
      cases read
    · obtain ⟨_, _, whole⟩ := exists_passes held sound
      exact absurd whole (Passes.not_of_failed found passed failed _ _)
    · cases read

/-- An instance with padded names, a digit of another script, a blank line and both line ends, for
two handlers. -/
theorem read_declarations_padded :
    ∃ framework, (read (Text.linesOfBytes
        "arg(a\u0663).\r\n\t\n arg( b). \natt( b ,a\u0663 ).\r\n".toUTF8)).result = .ok framework ∧
      framework.arguments.toList = [⟨0, "a\u0663"⟩, ⟨1, "b"⟩] ∧
      framework.attackList = [("b", "a\u0663")] ∧
      deliveries 2 (read (Text.linesOfBytes
          "arg(a\u0663).\r\n\t\n arg( b). \natt( b ,a\u0663 ).\r\n".toUTF8)).warnings =
        [3, 4, 4].flatMap fun line => [0, 1].map fun handler =>
          (handler, ⟨line, "argument names beginning or ending by spaces may be ambiguous"⟩) := by
  have first : IsName "a\u0663" := ⟨'a', ['\u0663'], by decide, by decide,
    List.forall_mem_singleton.mpr (.inr (.inr (by decide)))⟩
  have second : IsName "b" := ⟨'b', [], by decide, by decide, List.forall_mem_nil _⟩
  have plain : Declares "arg(a\u0663).".toList (.argument ⟨"a\u0663", false⟩) :=
    @Declares.argument _ "a\u0663".toList _ ⟨first, .refl _, by decide⟩ (.refl _)
  have padded : Declares " arg( b). ".toList (.argument ⟨"b", true⟩) :=
    @Declares.argument _ " b".toList _
      ⟨second, ⟨[' '], [], by decide, by decide, by decide⟩, by decide⟩
      ⟨[' '], [' '], by decide, by decide, by decide⟩
  have joined : Declares "att( b ,a\u0663 ).".toList (.attack ⟨"b", true⟩ ⟨"a\u0663", true⟩) :=
    @Declares.attack _ _ " b ".toList "a\u0663 ".toList _
      ⟨second, ⟨[' '], [' '], by decide, by decide, by decide⟩, by decide⟩
      ⟨first, ⟨[], [' '], by decide, by decide, by decide⟩, by decide⟩ (.refl _)
  have lines : Text.lines "arg(a\u0663).\r\n\t\n arg( b). \natt( b ,a\u0663 ).\r\n".toList =
      ["arg(a\u0663).".toList, ['\t'], " arg( b). ".toList, "att( b ,a\u0663 ).".toList] := by
    decide
  have held : List.Forall₂ Holds
      (Text.lines "arg(a\u0663).\r\n\t\n arg( b). \natt( b ,a\u0663 ).\r\n".toList)
      [some (.argument ⟨"a\u0663", false⟩), none, some (.argument ⟨"b", true⟩),
        some (.attack ⟨"b", true⟩ ⟨"a\u0663", true⟩)] := by
    rw [lines]
    exact .cons (.declaration plain) (.cons (.blank (by decide))
      (.cons (.declaration padded) (.cons (.declaration joined) .nil)))
  obtain ⟨accepted, described⟩ := read_declarations _ _ held
  obtain ⟨framework, read⟩ := accepted.mpr ⟨by decide, by decide, by decide, by decide⟩
  obtain ⟨_, arguments, _, attacks, told⟩ := described framework read
  exact ⟨framework, read, arguments, attacks, told 2⟩

end Argumentation.Format.Apx
