import Argumentation.Proofs.Program.Admissibility
import Argumentation.Proofs.Session.Exactness

/-!
# Sessions of elements

Sessions whose batches are those of arguments and attacks. They accept the batch of every new
argument, and of every new attack between arguments that they have. What they answer are the
admissible sets of the elements whose flags are true.
-/

namespace Argumentation

variable {α : Type} [DecidableEq α]

namespace Encoding

/-- The batch of an element. -/
def batchOf (element : Element α) : Batch α :=
  ⟨element, rules element⟩

section Label

variable [Label α]

omit [DecidableEq α] in
theorem argumentBatch_of_valid {label : α} (valid : Label.isValid label = true) :
    argumentBatch label = .ok (batchOf (.argument label)) := by
  rw [argumentBatch, validate, if_pos valid]
  rfl

omit [DecidableEq α] in
theorem argumentBatch_of_invalid {label : α} (invalid : ¬ Label.isValid label = true) :
    argumentBatch label = .error (.invalidLabel label) := by
  rw [argumentBatch, validate, if_neg invalid]
  rfl

omit [DecidableEq α] in
theorem attackBatch_of_valid {attacker attacked : α} (first : Label.isValid attacker = true)
    (second : Label.isValid attacked = true) :
    attackBatch attacker attacked = .ok (batchOf (.attack attacker attacked)) := by
  rw [attackBatch, validate, validate, if_pos first, if_pos second]
  rfl

end Label

end Encoding

namespace Session

open Argumentation.Sat (Engine)

/-- The elements that have a batch, in the order in which they got it. -/
def elements (session : Session α) : List (Element α) :=
  session.batches.map Batch.element

omit [DecidableEq α] in
theorem elements_congr {session other : Session α} (batches : other.batches = session.batches) :
    other.elements = session.elements := by
  rw [elements, batches, ← elements]

/-- A settled session of elements. -/
structure Encoded (ledger : Ledger α) (session : Session α) : Prop extends
  Settled ledger session where
  encoded : session.batches = session.elements.map Encoding.batchOf

theorem Encoded.empty : (empty : Session α).Encoded {} where
  toSettled := .empty
  encoded := rfl

section Encoded

variable {ledger : Ledger α} {session : Session α}

theorem Encoded.program (encoded : session.Encoded ledger) :
    programOf session.batches = Encoding.program session.elements := by
  rw [encoded.encoded, programOf, List.flatMap_map]
  rfl

theorem Settled.isSome_flagValue?_iff (settled : session.Settled ledger) (element : Element α) :
    (session.flagValue? element).isSome = true ↔ element ∈ session.elements := by
  rw [isSome_flagValue?, settled.flagged, elements, List.mem_map]

/-- Only elements with a batch have a flag that is true. -/
theorem Settled.mem_of_raised (settled : session.Settled ledger) (element : Element α)
    (raised : session.raised element = true) : element ∈ session.elements := by
  rw [← settled.isSome_flagValue?_iff]
  simp only [Session.raised, beq_iff_eq] at raised
  simp [raised]

theorem Settled.flag_of_mem (settled : session.Settled ledger) {element : Element α}
    (member : element ∈ session.elements) :
    session.flag element = .ok (session.raised element) := by
  obtain ⟨value, found⟩ := Option.isSome_iff_exists.mp
    ((settled.isSome_flagValue?_iff element).mpr member)
  cases value <;> simp [flag_eq, Session.raised, found]

/-- Sessions with the same flags and batches are told apart by neither. -/
theorem Encoded.of_settled {later : Ledger α} {other : Session α} (encoded : session.Encoded ledger)
    (settled : other.Settled later) (batches : other.batches = session.batches) :
    other.Encoded later where
  toSettled := settled
  encoded := by rw [elements_congr batches, ← encoded.encoded, batches]

/-- The ends of an attack have batches. -/
theorem missingEndpoint?_eq_none {element : Element α} :
    session.missingEndpoint? element = none ↔
      forall attacker attacked, element = .attack attacker attacked ->
        .argument attacker ∈ session.elements ∧ .argument attacked ∈ session.elements := by
  have known : forall other, session.batchId? other ≠ none ↔ other ∈ session.elements := by
    intro other
    rw [Ne, batchId?_eq_none, elements, List.mem_map]
    simp
  cases element with
  | argument label => simp [missingEndpoint?]
  | attack attacker attacked =>
    simp only [missingEndpoint?, List.find?_eq_none, List.forall_mem_cons, List.not_mem_nil,
      Option.isNone_iff_eq_none, known]
    constructor
    · rintro ⟨first, second, _⟩ _ _ ⟨⟩
      exact ⟨first, second⟩
    · intro ends
      obtain ⟨first, second⟩ := ends attacker attacked rfl
      exact ⟨first, second, by simp⟩

/-- The batch of an element is acceptable when its ends have batches. -/
theorem accepts_batchOf {element : Element α}
    (ends : session.missingEndpoint? element = none) :
    session.Accepts (Encoding.batchOf element) where
  endpoints := ends
  fits rule member := by
    cases element <;>
      simp only [Encoding.batchOf, Encoding.rules, Encoding.argumentRules, Encoding.attackRules,
        List.mem_cons, List.not_mem_nil, or_false] at member <;>
      rcases member with rfl | rfl | rfl | rfl | rfl | rfl <;>
      constructor <;>
      simp [Encoding.batchOf, Element.flagAtom, Atom.isStructural, Atom.isShowable, Rule.body,
        BodyLiteral.atom]
  declared := by
    cases element <;>
      simp [Encoding.batchOf, Encoding.rules, Encoding.argumentRules, Encoding.attackRules,
        Element.flagAtom]

/-- What an enumeration answers: the admissible sets of the raised elements, each once. -/
theorem Encoded.solve_exact (encoded : session.Encoded ledger)
    (distinct : (Encoding.labels session.elements).Nodup) {engine : Engine}
    (sound : engine.Sound) (complete : engine.Complete) :
    ∃ extensions, (session.solve engine .never).1 = .ok extensions ∧ extensions.Nodup ∧
      forall extension, extension ∈ extensions ↔
        extension.Sublist (Encoding.labels session.elements) ∧
          IsAdmissible (fun label => session.raised (.argument label) = true)
            (fun attacker attacked => session.raised (.attack attacker attacked) = true)
            extension := by
  obtain ⟨extensions, solved, nodup, exact⟩ := encoded.toSettled.solve_exact sound complete
  refine ⟨extensions, solved, nodup, fun extension => ?_⟩
  rw [exact, encoded.program]
  exact Encoding.exists_projection_iff distinct encoded.mem_of_raised extension

/-- The search for a model in which some arguments are in gives an admissible set that has them,
if there is one. -/
theorem Encoded.findModel_exact (encoded : session.Encoded ledger)
    (distinct : (Encoding.labels session.elements).Nodup) {engine : Engine}
    (sound : engine.Sound) (complete : engine.Complete) {wanted : List α}
    (known : forall label, label ∈ wanted -> .argument label ∈ session.elements) :
    ∃ found, (session.findModel engine (wanted.map .inside)).1 = .ok found ∧
      (forall extension, found = some extension ->
        extension.Sublist (Encoding.labels session.elements) ∧
          IsAdmissible (fun label => session.raised (.argument label) = true)
            (fun attacker attacked => session.raised (.attack attacker attacked) = true)
            extension ∧ wanted ⊆ extension) ∧
      (found = none -> forall members : List α,
        IsAdmissible (fun label => session.raised (.argument label) = true)
          (fun attacker attacked => session.raised (.attack attacker attacked) = true) members ->
          ¬ wanted ⊆ members) := by
  have seen : forall atom, atom ∈ wanted.map Atom.inside -> (session.varOf? atom).isSome := by
    intro atom member
    obtain ⟨label, inside, rfl⟩ := List.mem_map.mp member
    refine encoded.isSome_varOf? ⟨.display (.inside label), ?_, by simp [Rule.atoms, Rule.head?]⟩
    rw [encoded.program, Encoding.mem_program]
    exact ⟨_, known label inside, by simp [Encoding.rules, Encoding.argumentRules]⟩
  obtain ⟨found, answered, some, none⟩ :=
    encoded.toSettled.findModel_exact sound complete seen
  rw [encoded.program] at some none
  refine ⟨found, answered, fun extension same => ?_, fun same members admissible inside => ?_⟩
  · obtain ⟨model, completion, holds, rfl⟩ := some extension same
    obtain ⟨sublist, admissible⟩ := (Encoding.exists_projection_iff distinct
      encoded.mem_of_raised _).mp ⟨model, completion, rfl⟩
    refine ⟨sublist, admissible, fun label member => ?_⟩
    rw [Encoding.projection_program distinct, List.mem_filter, Encoding.mem_labels]
    exact ⟨known label member, holds _ (List.mem_map.mpr ⟨label, member, rfl⟩)⟩
  · refine none same _ (Encoding.isCompletionModel_iff.mpr
      (Encoding.isEncoded_modelOf encoded.mem_of_raised admissible)) fun atom member => ?_
    obtain ⟨label, listed, rfl⟩ := List.mem_map.mp member
    simpa [Encoding.modelOf] using inside listed

variable [Label α]

theorem raised_apply {batch : Batch α} (new : session.batchId? batch.element = none)
    (accepts : session.Accepts batch) (element : Element α) :
    (session.apply batch).2.raised element =
      if element = batch.element then false else session.raised element := by
  simp only [raised, flagValue?_apply new accepts]
  by_cases own : element = batch.element <;> simp [own]

/-- A new element whose ends are known is accepted, and its flag is false as it was before. -/
theorem Encoded.apply (encoded : session.Encoded ledger) {element : Element α}
    (new : element ∉ session.elements)
    (ends : session.missingEndpoint? element = none) :
    (session.apply (Encoding.batchOf element)).1 = .ok session.batchCount ∧
      (∃ later, (session.apply (Encoding.batchOf element)).2.Encoded later) ∧
      (session.apply (Encoding.batchOf element)).2.elements = session.elements ++ [element] ∧
      (session.apply (Encoding.batchOf element)).2.raised = session.raised := by
  have absent : session.batchId? (Encoding.batchOf element).element = none := by
    rw [batchId?_eq_none]
    exact fun batch member same => new (List.mem_map.mpr ⟨batch, member, same⟩)
  have accepts := accepts_batchOf ends
  have batches := batches_apply absent accepts
  obtain ⟨later, settled⟩ := encoded.toSettled.apply (Encoding.batchOf element)
  refine ⟨by rw [apply_of_accepts absent accepts], ⟨later, settled, ?_⟩, ?_, ?_⟩
  · simp only [elements, batches, List.map_append, List.map_cons, List.map_nil]
    rw [← elements, ← encoded.encoded]
    rfl
  · simp only [elements, batches, List.map_append, List.map_cons, List.map_nil]
    rfl
  · have inactive : session.raised element = false := by
      rw [← Bool.not_eq_true]
      exact fun active => new (encoded.mem_of_raised element active)
    funext other
    rw [raised_apply absent accepts]
    by_cases same : other = element <;> simp [same, inactive, Encoding.batchOf]

/-- Setting the flags of known elements succeeds and changes these flags alone. -/
theorem Encoded.setFlags (encoded : session.Encoded ledger) (value : Bool)
    {chosen : List (Element α)} (known : forall element, element ∈ chosen ->
      element ∈ session.elements) :
    (session.setFlags value chosen).1 = .ok () ∧
      (session.setFlags value chosen).2.Encoded ledger ∧
      (session.setFlags value chosen).2.elements = session.elements ∧
      forall other, (session.setFlags value chosen).2.raised other =
        if other ∈ chosen then value else session.raised other := by
  have declared : forall element, element ∈ chosen ->
      (session.flagValue? element).isSome = true := fun element member =>
    (encoded.isSome_flagValue?_iff element).mpr (known element member)
  have batches := batches_setFlags session value chosen
  refine ⟨setFlags_of_known declared value,
    encoded.of_settled (encoded.toSettled.setFlags value chosen) batches, ?_, fun other => ?_⟩
  · exact elements_congr batches
  · by_cases member : other ∈ chosen
    · obtain ⟨old, found⟩ := Option.isSome_iff_exists.mp (declared other member)
      cases value <;> simp [raised, flagValue?_setFlags declared, member, found]
    · simp [raised, flagValue?_setFlags declared, member]

end Encoded

end Session

end Argumentation
