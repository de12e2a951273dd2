import Argumentation.Proofs.Solver.Representation
import Argumentation.Solver.FromScratch

/-!
# Solving from scratch

A consistent framework with valid labels is compiled without a refusal: the batches of its arguments
come first, so those of its attacks find their ends. The session represents the framework, and what
it answers is about the framework alone.
-/

namespace Argumentation.FromScratch

open Argumentation.Session

variable {α : Type} {framework : Framework α}

section Elements

theorem argument_mem_elements {label : α} :
    .argument label ∈ elements framework ↔ label ∈ framework.arguments.labels := by
  simp [elements]

theorem attack_mem_elements {attacker attacked : α} :
    .attack attacker attacked ∈ elements framework ↔
      (attacker, attacked) ∈ framework.attackList := by
  simp [elements]

theorem labels_elements (framework : Framework α) :
    Encoding.labels (elements framework) = framework.arguments.labels := by
  simp [Encoding.labels, elements, List.filterMap_append, List.filterMap_map,
    Function.comp_def, Encoding.label?]

theorem nodup_elements [DecidableEq α] (consistent : framework.Consistent) :
    (elements framework).Nodup := by
  refine List.nodup_append.mpr ⟨?_, ?_, ?_⟩
  · exact consistent.arguments.distinct.map fun _ _ same => Element.argument.inj same
  · refine consistent.nodup_attackList.map fun first second same => ?_
    obtain ⟨left, right⟩ := Element.attack.inj same
    exact Prod.ext left right
  · intro element argument other attack
    obtain ⟨label, _, rfl⟩ := List.mem_map.mp argument
    obtain ⟨pair, _, rfl⟩ := List.mem_map.mp attack
    exact nofun

end Elements

variable [Label α]

/-- The labels of an element are valid. -/
def IsValid : Element α -> Prop
  | .argument label => Label.isValid label = true
  | .attack attacker attacked =>
    Label.isValid attacker = true ∧ Label.isValid attacked = true

theorem batch_of_valid {element : Element α} (valid : IsValid element) :
    Encoding.batch element = .ok (Encoding.batchOf element) := by
  cases element with
  | argument label => exact Encoding.argumentBatch_of_valid valid
  | attack attacker attacked => exact Encoding.attackBatch_of_valid valid.1 valid.2

variable [DecidableEq α]

/-- What is applied in two parts. -/
theorem applyAll_append {session : Session α} {first : List (Element α)}
    (done : (applyAll session first).1 = .ok ()) (second : List (Element α)) :
    applyAll session (first ++ second) = applyAll (applyAll session first).2 second := by
  induction first generalizing session with
  | nil => rfl
  | cons element rest ih =>
    simp only [List.cons_append, applyAll] at done ⊢
    split at done
    · simp at done
    · split at done
      · exact ih done
      · simp at done

/-- New valid elements whose ends are known are all applied. -/
theorem applyAll_exact {ledger : Ledger α} {session : Session α} (encoded : session.Encoded ledger)
    (chosen : List (Element α)) (distinct : (session.elements ++ chosen).Nodup)
    (valid : forall element, element ∈ chosen -> IsValid element)
    (ends : forall attacker attacked, .attack attacker attacked ∈ chosen ->
      .argument attacker ∈ session.elements ∧ .argument attacked ∈ session.elements) :
    (applyAll session chosen).1 = .ok () ∧
      (∃ later, (applyAll session chosen).2.Encoded later) ∧
      (applyAll session chosen).2.elements = session.elements ++ chosen ∧
      (applyAll session chosen).2.raised = session.raised := by
  induction chosen generalizing ledger session with
  | nil => exact ⟨rfl, ⟨ledger, encoded⟩, by simp [applyAll], rfl⟩
  | cons element rest ih =>
    have new : element ∉ session.elements := fun member =>
      (List.nodup_append.mp distinct).2.2 element member element List.mem_cons_self rfl
    have known : session.missingEndpoint? element = none := by
      refine missingEndpoint?_eq_none.mpr ?_
      rintro attacker attacked rfl
      exact ends attacker attacked List.mem_cons_self
    obtain ⟨applied, ⟨next, settled⟩, elements, raised⟩ := encoded.apply new known
    have step : applyAll session (element :: rest) =
        applyAll (session.apply (Encoding.batchOf element)).2 rest := by
      have split : session.apply (Encoding.batchOf element) =
          (.ok session.batchCount, (session.apply (Encoding.batchOf element)).2) :=
        Prod.ext applied rfl
      simp only [applyAll, batch_of_valid (valid element List.mem_cons_self)]
      rw [split]
    rw [step]
    obtain ⟨done, final, all, same⟩ := ih settled
      (by simpa [elements] using distinct)
      (fun other member => valid other (List.mem_cons_of_mem _ member))
      (fun attacker attacked member => by
        obtain ⟨first, second⟩ := ends attacker attacked (List.mem_cons_of_mem _ member)
        rw [elements]
        exact ⟨List.mem_append_left _ first, List.mem_append_left _ second⟩)
    exact ⟨done, final, by simp [all, elements], same.trans raised⟩

/-- The elements of a framework are all applied to a session without elements. -/
theorem applyAll_elements (consistent : framework.Consistent)
    (valid : forall label, label ∈ framework.arguments.labels -> Label.isValid label = true)
    {ledger : Ledger α} {session : Session α} (encoded : session.Encoded ledger)
    (empty : session.elements = []) :
    (applyAll session (elements framework)).1 = .ok () ∧
      (∃ later, (applyAll session (elements framework)).2.Encoded later) ∧
      (applyAll session (elements framework)).2.elements = elements framework ∧
      (applyAll session (elements framework)).2.raised = session.raised := by
  have distinct := nodup_elements consistent
  obtain ⟨one, ⟨middle, ready⟩, first, low⟩ := applyAll_exact encoded
    (framework.arguments.labels.map .argument)
    (by
      rw [empty]
      exact (List.nodup_append.mp distinct).1)
    (fun element member => by
      obtain ⟨label, known, rfl⟩ := List.mem_map.mp member
      exact valid label known)
    (by simp)
  rw [empty, List.nil_append] at first
  obtain ⟨two, later, all, flags⟩ := applyAll_exact ready
    (framework.attackList.map fun attack => .attack attack.1 attack.2)
    (by
      rw [first]
      exact distinct)
    (fun element member => by
      obtain ⟨attack, known, rfl⟩ := List.mem_map.mp member
      obtain ⟨attacker, attacked⟩ := Framework.ends_mem_labels known
      exact ⟨valid _ attacker, valid _ attacked⟩)
    (fun attacker attacked member => by
      obtain ⟨attack, known, same⟩ := List.mem_map.mp member
      cases same
      simpa [first] using Framework.ends_mem_labels known)
  rw [first] at all
  rw [elements, applyAll_append one]
  exact ⟨two, later, all, flags.trans low⟩

/-- A session of the elements of a framework represents it once their flags are true. -/
theorem setFlags_elements (consistent : framework.Consistent) {ledger : Ledger α}
    {session : Session α} (encoded : session.Encoded ledger)
    (all : session.elements = elements framework)
    (inactive : forall element, session.raised element = false) :
    (session.setFlags true (elements framework)).1 = .ok () ∧
      (session.setFlags true (elements framework)).2.Represents framework ∧
      (session.setFlags true (elements framework)).2.elements = elements framework := by
  obtain ⟨done, later, same, flags⟩ := encoded.setFlags true (fun element member => all ▸ member)
  rw [all] at same
  simp only [inactive, Bool.if_false_right, Bool.and_true] at flags
  refine ⟨done, ⟨⟨ledger, later⟩, ?_, ?_, fun attacker attacked => ?_⟩, same⟩
  · rw [same, labels_elements]
    exact consistent.arguments.distinct
  · rw [same, labels_elements, eq_comm, List.filter_eq_self]
    intro label member
    simpa [flags] using argument_mem_elements.mpr member
  · simp [flags, attack_mem_elements]

/-- A consistent framework with valid labels is compiled, and its session represents it. -/
theorem build_exact (consistent : framework.Consistent)
    (valid : forall label, label ∈ framework.arguments.labels -> Label.isValid label = true) :
    ∃ session, build framework = (.ok (), session) ∧ session.Represents framework ∧
      session.elements = elements framework := by
  unfold build
  extract_lets noted
  have begun : noted.Encoded {} := Encoded.empty.of_settled (Settled.empty.note _ _) rfl
  obtain ⟨applied, ⟨ledger, encoded⟩, all, low⟩ := applyAll_elements consistent valid begun rfl
  have compiled : applyAll noted (elements framework) =
      (.ok (), (applyAll noted (elements framework)).2) := Prod.ext applied rfl
  have raised := setFlags_elements consistent encoded all fun element => by
    rw [low]
    rfl
  rw [compiled]
  exact ⟨_, Prod.ext raised.1 rfl, raised.2⟩

section Queries

variable {setting : Setting}

/-- The extensions that an enumeration lists. -/
theorem enumerate_exact (consistent : framework.Consistent)
    (valid : forall label, label ∈ framework.arguments.labels -> Label.isValid label = true)
    (unlimited : setting.timeout = none) (sound : setting.engine.Sound)
    (complete : setting.engine.Complete) :
    ∃ extensions, (enumerate setting framework).1 = .ok extensions ∧ extensions.Nodup ∧
      forall extension, extension ∈ extensions ↔ framework.IsExtension extension := by
  obtain ⟨session, built, represents, _⟩ := build_exact consistent valid
  rw [enumerate, built]
  exact represents.enumerate unlimited sound complete

/-- The number of extensions is that of an enumeration. -/
theorem count_of_enumerate {extensions : List (Extension α)}
    (solved : (enumerate setting framework).1 = .ok extensions) :
    (count setting framework).1 = .ok extensions.length :=
  congrArg (Except.map List.length) solved

/-- An argument is accepted when an extension has it. -/
theorem isAccepted_exact (consistent : framework.Consistent)
    (valid : forall label, label ∈ framework.arguments.labels -> Label.isValid label = true)
    (sound : setting.engine.Sound) (complete : setting.engine.Complete) {label : α}
    (known : label ∈ framework.arguments.labels) :
    ∃ accepted, (isAccepted setting framework label).1 = .ok accepted ∧
      (accepted = true ↔ ∃ extension, framework.IsExtension extension ∧ label ∈ extension) := by
  obtain ⟨id, _, found⟩ := consistent.arguments.find_of_mem known
  obtain ⟨session, built, represents, all⟩ := build_exact consistent valid
  rw [isAccepted, found, built]
  exact represents.findModel_inside sound complete (all ▸ argument_mem_elements.mpr known)

/-- An argument that is not defined is refused. -/
theorem isAccepted_of_unknown (consistent : framework.Consistent) {label : α}
    (unknown : label ∉ framework.arguments.labels) :
    (isAccepted setting framework label).1 = .error (.unknownArgument label) := by
  rw [isAccepted, consistent.arguments.find_of_not_mem unknown]

end Queries

end Argumentation.FromScratch
