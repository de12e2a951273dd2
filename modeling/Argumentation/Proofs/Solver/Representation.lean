import Argumentation.Proofs.Framework.Admissibility
import Argumentation.Proofs.Session.Elements
import Argumentation.Solver.Setting

/-!
# Sessions that represent a framework

A session of elements represents the framework of those whose flags are true. It may have other
elements, and it may have got its batches in any order, as long as the arguments of the framework
are in the order of the session. What it answers depends on the framework alone.
-/

namespace Argumentation.Session

variable {α : Type} [DecidableEq α] {session : Session α} {framework : Framework α}

/-- The raised elements of a session are those of a framework. -/
structure Represents (session : Session α) (framework : Framework α) : Prop where
  encoded : ∃ ledger, session.Encoded ledger
  distinct : (Encoding.labels session.elements).Nodup
  labels : framework.arguments.labels =
    (Encoding.labels session.elements).filter fun label => session.raised (.argument label)
  attacks : forall attacker attacked, (attacker, attacked) ∈ framework.attackList ↔
    session.raised (.attack attacker attacked) = true

namespace Represents

theorem mem_labels_iff (represents : session.Represents framework) (label : α) :
    label ∈ framework.arguments.labels ↔ session.raised (.argument label) = true := by
  obtain ⟨ledger, encoded⟩ := represents.encoded
  rw [represents.labels, List.mem_filter, and_iff_right_iff_imp]
  exact fun raised => Encoding.mem_labels.mpr (encoded.mem_of_raised _ raised)

/-- Its admissible sets, listed in its own order, are the extensions of the framework. -/
theorem isExtension_iff (represents : session.Represents framework) (extension : Extension α) :
    framework.IsExtension extension ↔
      extension.Sublist (Encoding.labels session.elements) ∧
        IsAdmissible (fun label => session.raised (.argument label) = true)
          (fun attacker attacked => session.raised (.attack attacker attacked) = true)
          extension := by
  have active : (fun label => label ∈ framework.arguments.labels) =
      fun label => session.raised (.argument label) = true := by
    ext label
    exact represents.mem_labels_iff label
  have attacks : (fun attacker attacked => (attacker, attacked) ∈ framework.attackList) =
      fun attacker attacked => session.raised (.attack attacker attacked) = true := by
    ext attacker attacked
    exact represents.attacks attacker attacked
  constructor
  · rintro ⟨sublist, admissible⟩
    rw [active, attacks] at admissible
    rw [represents.labels] at sublist
    exact ⟨sublist.trans List.filter_sublist, admissible⟩
  · rintro ⟨sublist, admissible⟩
    refine ⟨?_, ?_⟩
    · rw [represents.labels, sublist_filter_iff]
      exact ⟨sublist, admissible.active⟩
    · rw [active, attacks]
      exact admissible

theorem note (represents : session.Represents framework) (level : Level) (text : String) :
    (session.note level text).Represents framework where
  encoded := by
    obtain ⟨ledger, encoded⟩ := represents.encoded
    exact ⟨ledger, encoded.of_settled (encoded.toSettled.note level text) rfl⟩
  distinct := represents.distinct
  labels := represents.labels
  attacks := represents.attacks

/-- An enumeration without a time limit lists the extensions of the framework, each once. -/
theorem enumerate (represents : session.Represents framework) {setting : Setting}
    (unlimited : setting.timeout = none) (sound : setting.engine.Sound)
    (complete : setting.engine.Complete) :
    ∃ extensions, (setting.enumerate session).1 = .ok extensions ∧ extensions.Nodup ∧
      forall extension, extension ∈ extensions ↔ framework.IsExtension extension := by
  obtain ⟨ledger, encoded⟩ := represents.encoded
  obtain ⟨extensions, solved, nodup, exact⟩ :=
    encoded.solve_exact represents.distinct sound complete
  refine ⟨extensions, ?_, nodup, fun extension => ?_⟩
  · simpa [Setting.enumerate, Setting.deadline?, unlimited] using solved
  · rw [exact, represents.isExtension_iff]

/-- A search without conditions finds an extension, as the empty set is admissible. -/
theorem findModel (represents : session.Represents framework) {engine : Sat.Engine}
    (sound : engine.Sound) (complete : engine.Complete) :
    ∃ extension, (session.findModel engine []).1 = .ok (some extension) ∧
      framework.IsExtension extension := by
  obtain ⟨ledger, encoded⟩ := represents.encoded
  obtain ⟨found, answered, some, none⟩ := encoded.findModel_exact represents.distinct sound
    complete (show forall label, label ∈ [] -> .argument label ∈ session.elements by simp)
  cases found with
  | none => exact absurd (List.nil_subset []) (none rfl [] .nil)
  | some extension =>
    obtain ⟨sublist, admissible, _⟩ := some extension rfl
    exact ⟨extension, answered, (represents.isExtension_iff extension).mpr ⟨sublist, admissible⟩⟩

/-- A search for an argument tells whether some extension has it. -/
theorem findModel_inside (represents : session.Represents framework) {engine : Sat.Engine}
    (sound : engine.Sound) (complete : engine.Complete) {label : α}
    (known : .argument label ∈ session.elements) :
    ∃ accepted, (session.findModel engine [.inside label]).1.map Option.isSome = .ok accepted ∧
      (accepted = true ↔ ∃ extension, framework.IsExtension extension ∧ label ∈ extension) := by
  obtain ⟨ledger, encoded⟩ := represents.encoded
  obtain ⟨found, answered, some, none⟩ := encoded.findModel_exact represents.distinct sound
    complete (show forall other, other ∈ [label] -> .argument other ∈ session.elements by
      simpa using known)
  refine ⟨found.isSome, congrArg (Except.map Option.isSome) answered, ?_⟩
  constructor
  · intro accepted
    obtain ⟨extension, same⟩ := Option.isSome_iff_exists.mp accepted
    obtain ⟨sublist, admissible, inside⟩ := some extension same
    exact ⟨extension, (represents.isExtension_iff extension).mpr ⟨sublist, admissible⟩,
      inside List.mem_cons_self⟩
  · rintro ⟨extension, isExtension, member⟩
    obtain ⟨_, admissible⟩ := (represents.isExtension_iff extension).mp isExtension
    cases found with
    | none => exact absurd (by simpa using member) (none rfl extension admissible)
    | some _ => rfl

end Represents

end Argumentation.Session
