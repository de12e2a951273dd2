import Argumentation.Proofs.Solver.Coherence

/-!
# Operations of the solver

Each operation of a coherent solver follows its registry: it is refused with the same error, or does
the same and leaves the solver coherent.
-/

namespace Argumentation

variable {α : Type} [DecidableEq α] [Label α]

namespace DynamicSolver

variable {solver : DynamicSolver α}

section Lookup

theorem Coherent.find_of_known (coherent : solver.Coherent) {label : α}
    (known : label ∈ solver.registry.labels) :
    ∃ id, solver.framework.arguments.labels[id]? = some label ∧
      solver.framework.arguments.find label = .ok ⟨id, label⟩ :=
  coherent.framework.arguments.find_of_mem known

theorem Coherent.find_of_unknown (coherent : solver.Coherent) {label : α}
    (unknown : label ∉ solver.registry.labels) :
    solver.framework.arguments.find label = .error (.unknownArgument label) :=
  coherent.framework.arguments.find_of_not_mem unknown

theorem Coherent.hasArgument_iff (coherent : solver.Coherent) {label : α} :
    solver.hasArgument label = true ↔ label ∈ solver.registry.labels :=
  coherent.framework.arguments.contains_iff label

theorem Coherent.hasAttack_iff (coherent : solver.Coherent) {attacker attacked : α} :
    solver.hasAttack attacker attacked = true ↔ (attacker, attacked) ∈ solver.registry.attacks :=
  coherent.framework.hasAttack_iff

omit [Label α] in
theorem checkKnown_of_known {registry : Registry α} {label : α}
    (known : label ∈ registry.labels) : registry.checkKnown label = .ok () :=
  if_pos known

omit [Label α] in
theorem checkKnown_of_unknown {registry : Registry α} {label : α}
    (unknown : label ∉ registry.labels) :
    registry.checkKnown label = .error (.unknownArgument label) :=
  if_neg unknown

omit [DecidableEq α] [Label α] in
theorem checkActive_of_active {registry : Registry α} {label : α}
    (active : registry.active (.argument label) = true) : registry.checkActive label = .ok () :=
  if_pos active

omit [DecidableEq α] [Label α] in
theorem checkActive_of_inactive {registry : Registry α} {label : α}
    (inactive : ¬ registry.active (.argument label) = true) :
    registry.checkActive label = .error (.inactiveArgument label) :=
  if_neg inactive

/-- Known attacks are told by the registry; unknown ends are reported first. -/
theorem Coherent.checkKnownAttack_eq (coherent : solver.Coherent) (attacker attacked : α) :
    solver.checkKnownAttack attacker attacked = (do
      solver.registry.checkKnown attacker
      solver.registry.checkKnown attacked
      solver.registry.checkAttack attacker attacked) := by
  by_cases first : attacker ∈ solver.registry.labels
  · obtain ⟨source, _, left⟩ := coherent.find_of_known first
    by_cases second : attacked ∈ solver.registry.labels
    · obtain ⟨target, _, right⟩ := coherent.find_of_known second
      rw [checkKnownAttack, left, right, checkKnown_of_known first, checkKnown_of_known second,
        Registry.checkAttack]
      simp only [coherent.hasAttack_iff]
      rfl
    · rw [checkKnownAttack, left, coherent.find_of_unknown second, checkKnown_of_known first,
        checkKnown_of_unknown second]
      rfl
  · rw [checkKnownAttack, coherent.find_of_unknown first, checkKnown_of_unknown first]
    rfl

theorem Coherent.checkActive_eq (coherent : solver.Coherent) {label : α}
    (known : label ∈ solver.registry.labels) :
    solver.checkActive label = solver.registry.checkActive label := by
  rw [checkActive, coherent.flag_argument known]
  rfl

end Lookup

theorem Coherent.enableArgument (coherent : solver.Coherent) (label : α) :
    solver.Follows (solver.enableArgument label) (solver.registry.enableArgument label) := by
  by_cases known : label ∈ solver.registry.labels
  · obtain ⟨id, _, found⟩ := coherent.find_of_known known
    have expected : solver.registry.enableArgument label =
        .ok (solver.registry.raise (.argument label)) := by
      rw [Registry.enableArgument, checkKnown_of_known known]
      rfl
    rw [expected]
    simp only [DynamicSolver.enableArgument, found]
    refine coherent.setFlags true _ (fun element member => ?_) _ (fun other => ?_)
      fun attacker attacked active => ?_
    · rw [List.mem_singleton.mp member, coherent.argument_mem_iff]
      exact known
    · by_cases same : other = .argument label <;> simp [same]
    · have ends := coherent.ends attacker attacked (by simpa using active)
      simp [ends]
  · have refused : solver.registry.enableArgument label = .error (.unknownArgument label) := by
      rw [Registry.enableArgument, checkKnown_of_unknown known]
      rfl
    rw [refused]
    simp only [DynamicSolver.enableArgument, coherent.find_of_unknown known]
    rfl

/-- An argument and the attacks around it are the elements that touch it. -/
theorem Coherent.mem_around (coherent : solver.Coherent) {id : Nat} {label : α}
    (found : solver.framework.arguments.labels[id]? = some label) (element : Element α) :
    element ∈ solver.attacksAround ⟨id, label⟩ ++ [.argument label] ↔
      Registry.touches label element = true ∧ element ∈ solver.session.elements := by
  simp only [attacksAround, List.mem_append, List.mem_map, List.mem_singleton, Prod.exists,
    coherent.framework.mem_attacksFrom found, coherent.framework.mem_attacksTo found]
  cases element with
  | argument other =>
    have known := coherent.argument_mem_iff.mpr (List.mem_of_getElem? found)
    simp only [Registry.touches, decide_eq_true_eq, reduceCtorEq, and_false, exists_false,
      false_or, Element.argument.injEq]
    exact ⟨fun same => ⟨same, same ▸ known⟩, And.left⟩
  | attack attacker attacked =>
    have known := coherent.attacks attacker attacked
    simp only [registry] at known
    simp only [Registry.touches, known, reduceCtorEq, or_false, Element.attack.injEq,
      Bool.or_eq_true, decide_eq_true_eq]
    constructor
    · rintro ⟨_, _, ⟨same, listed⟩ | ⟨same, listed⟩, rfl, rfl⟩
      · exact ⟨.inl same, listed⟩
      · exact ⟨.inr same, listed⟩
    · rintro ⟨same | same, listed⟩
      · exact ⟨_, _, .inl ⟨same, listed⟩, rfl, rfl⟩
      · exact ⟨_, _, .inr ⟨same, listed⟩, rfl, rfl⟩

theorem Coherent.disableArgument (coherent : solver.Coherent) (label : α) :
    solver.Follows (solver.disableArgument label) (solver.registry.disableArgument label) := by
  by_cases known : label ∈ solver.registry.labels
  · obtain ⟨id, position, found⟩ := coherent.find_of_known known
    obtain ⟨ledger, encoded⟩ := coherent.encoded
    have around := coherent.mem_around position
    rw [Registry.disableArgument, checkKnown_of_known known]
    simp only [DynamicSolver.disableArgument, found]
    refine coherent.setFlags false _ (fun element member => ((around element).mp member).2) _
      (fun other => ?_) fun attacker attacked active => ?_
    · simp only [around]
      cases active : solver.registry.active other with
      | false => simp
      | true =>
        have member := encoded.mem_of_raised other active
        cases touched : Registry.touches label other <;> simp [member]
    · simp only [Bool.and_eq_true, Bool.not_eq_true', Registry.touches, Bool.or_eq_false_iff]
        at active ⊢
      obtain ⟨⟨first, second⟩, active⟩ := active
      obtain ⟨left, right⟩ := coherent.ends attacker attacked active
      exact ⟨⟨first, left⟩, ⟨second, right⟩⟩
  · rw [Registry.disableArgument, checkKnown_of_unknown known]
    simp only [DynamicSolver.disableArgument, coherent.find_of_unknown known]
    rfl

theorem Coherent.enableAttack (coherent : solver.Coherent) (attacker attacked : α) :
    solver.Follows (solver.enableAttack attacker attacked)
      (solver.registry.enableAttack attacker attacked) := by
  rw [DynamicSolver.enableAttack, coherent.checkKnownAttack_eq, Registry.enableAttack]
  by_cases first : attacker ∈ solver.registry.labels
  · by_cases second : attacked ∈ solver.registry.labels
    · by_cases known : (attacker, attacked) ∈ solver.registry.attacks
      · rw [checkKnown_of_known first, checkKnown_of_known second, Registry.checkAttack,
          if_pos known, checkActiveEnds, coherent.checkActive_eq first,
          coherent.checkActive_eq second]
        by_cases left : solver.registry.active (.argument attacker) = true
        · by_cases right : solver.registry.active (.argument attacked) = true
          · rw [checkActive_of_active left, checkActive_of_active right]
            refine coherent.setFlags true _ (fun element member => ?_) _ (fun other => ?_)
              fun source target active => ?_
            · rw [List.mem_singleton.mp member]
              exact (coherent.attacks attacker attacked).mpr known
            · by_cases same : other = .attack attacker attacked <;> simp [same]
            · simp only [Bool.or_eq_true, decide_eq_true_eq, Element.attack.injEq, reduceCtorEq,
                false_or] at active ⊢
              rcases active with ⟨rfl, rfl⟩ | active
              · exact ⟨left, right⟩
              · exact coherent.ends source target active
          · rw [checkActive_of_active left, checkActive_of_inactive right]
            rfl
        · rw [checkActive_of_inactive left]
          rfl
      · rw [checkKnown_of_known first, checkKnown_of_known second, Registry.checkAttack,
          if_neg known]
        rfl
    · rw [checkKnown_of_known first, checkKnown_of_unknown second]
      rfl
  · rw [checkKnown_of_unknown first]
    rfl

theorem Coherent.disableAttack (coherent : solver.Coherent) (attacker attacked : α) :
    solver.Follows (solver.disableAttack attacker attacked)
      (solver.registry.disableAttack attacker attacked) := by
  rw [DynamicSolver.disableAttack, coherent.checkKnownAttack_eq, Registry.disableAttack]
  by_cases first : attacker ∈ solver.registry.labels
  · by_cases second : attacked ∈ solver.registry.labels
    · by_cases known : (attacker, attacked) ∈ solver.registry.attacks
      · rw [checkKnown_of_known first, checkKnown_of_known second, Registry.checkAttack,
          if_pos known]
        refine coherent.setFlags false _ (fun element member => ?_) _ (fun other => ?_)
          fun source target active => ?_
        · rw [List.mem_singleton.mp member]
          exact (coherent.attacks attacker attacked).mpr known
        · by_cases same : other = .attack attacker attacked <;> simp [same]
        · simp only [Bool.and_eq_true, decide_eq_true_eq] at active
          simpa using coherent.ends source target active.2
      · rw [checkKnown_of_known first, checkKnown_of_known second, Registry.checkAttack,
          if_neg known]
        rfl
    · rw [checkKnown_of_known first, checkKnown_of_unknown second]
      rfl
  · rw [checkKnown_of_unknown first]
    rfl

/-- The batch of a new element is installed beside a framework that has the element. -/
theorem Coherent.install (coherent : solver.Coherent) {framework : Framework α}
    (consistent : framework.Consistent) (element : Element α)
    (new : element ∉ solver.session.elements)
    (endpoints : solver.session.missingEndpoint? element = none)
    (labels : framework.arguments.labels =
      solver.registry.labels ++ Encoding.labels [element])
    (attacks : forall attacker attacked, (attacker, attacked) ∈ framework.attackList ↔
      (attacker, attacked) ∈ solver.registry.attacks ∨ element = .attack attacker attacked)
    (valid : forall label, label ∈ framework.arguments.labels -> Label.isValid label = true)
    (ends : forall attacker attacked, element = .attack attacker attacked ->
      solver.registry.active (.argument attacker) = true ∧
        solver.registry.active (.argument attacked) = true) :
    solver.Follows (install { solver with framework } (Encoding.batchOf element))
      (.ok (Registry.raise { solver.registry with
        labels := framework.arguments.labels
        attacks := framework.attackList } element)) := by
  obtain ⟨ledger, encoded⟩ := coherent.encoded
  obtain ⟨applied, ⟨later, grounded⟩, elements, unchanged⟩ := encoded.apply new endpoints
  -- The solver before the new element becomes active.
  let middle : DynamicSolver α :=
    { framework, session := (solver.session.apply (Encoding.batchOf element)).2 }
  have activity : middle.registry.active = solver.registry.active := unchanged
  have ready : middle.Coherent := by
    refine ⟨⟨later, grounded⟩, consistent, ?_, fun attacker attacked => ?_, valid, ?_⟩
    · change Encoding.labels (Session.elements _) = framework.arguments.labels
      rw [elements, labels, ← coherent.labels]
      exact List.filterMap_append
    · change _ ∈ Session.elements _ ↔ _ ∈ framework.attackList
      rw [elements, List.mem_append, List.mem_singleton, coherent.attacks, attacks, eq_comm]
    · simp only [activity]
      exact coherent.ends
  have followed := ready.setFlags true [element] (fun other member => ?_)
    (fun other => other = element || solver.registry.active other) (fun other => ?_)
    fun attacker attacked active => ?_
  · have split : solver.session.apply (Encoding.batchOf element) =
        (.ok solver.session.batchCount, middle.session) := Prod.ext applied rfl
    simp only [DynamicSolver.install, split]
    exact followed
  · rw [elements, List.mem_singleton.mp member]
    simp
  · rw [activity]
    by_cases same : other = element <;> simp [same]
  · simp only [Bool.or_eq_true, decide_eq_true_eq] at active ⊢
    rcases active with same | active
    · obtain ⟨left, right⟩ := ends attacker attacked same.symm
      exact ⟨.inr left, .inr right⟩
    · obtain ⟨left, right⟩ := coherent.ends attacker attacked active
      exact ⟨.inr left, .inr right⟩

theorem Coherent.newArgument (coherent : solver.Coherent) (label : α) :
    solver.Follows (solver.newArgument label) (solver.registry.newArgument label) := by
  rw [DynamicSolver.newArgument, Registry.newArgument]
  by_cases valid : Label.isValid label = true
  · rw [Encoding.argumentBatch_of_valid valid, if_pos valid]
    by_cases known : label ∈ solver.registry.labels
    · rw [coherent.framework.addArgument_of_mem known, if_pos known]
      rfl
    · obtain ⟨framework, added, consistent, labels, attacks⟩ :=
        coherent.framework.addArgument_of_not_mem known
      rw [added, if_neg known]
      have followed := coherent.install consistent (.argument label)
        (mt coherent.argument_mem_iff.mp known) rfl labels (fun attacker attacked => by
          simp [attacks, registry]) (fun other member => ?_) (by simp)
      · rw [labels, attacks] at followed
        exact followed
      · rw [labels, List.mem_append, List.mem_singleton] at member
        rcases member with old | rfl
        · exact coherent.valid other old
        · exact valid
  · rw [Encoding.argumentBatch_of_invalid valid, if_neg valid]
    rfl

/-- A new attack between active arguments is installed. -/
theorem Coherent.installAttack (coherent : solver.Coherent) {framework : Framework α}
    (consistent : framework.Consistent) {attacker attacked : α}
    (arguments : framework.arguments = solver.framework.arguments)
    (attacks : framework.attackList = solver.registry.attacks ++ [(attacker, attacked)])
    (new : (attacker, attacked) ∉ solver.registry.attacks)
    (left : solver.registry.active (.argument attacker) = true)
    (right : solver.registry.active (.argument attacked) = true) :
    solver.Follows
      (DynamicSolver.install { solver with framework }
        (Encoding.batchOf (.attack attacker attacked)))
      (.ok (Registry.raise { solver.registry with
        attacks := solver.registry.attacks ++ [(attacker, attacked)] }
          (.attack attacker attacked))) := by
  obtain ⟨ledger, encoded⟩ := coherent.encoded
  have followed := coherent.install consistent (.attack attacker attacked)
    (mt (coherent.attacks attacker attacked).mp new) ?_ ?_ (fun one other => ?_) ?_ ?_
  · rw [arguments, attacks] at followed
    exact followed
  · refine Session.missingEndpoint?_eq_none.mpr ?_
    rintro _ _ ⟨⟩
    exact ⟨encoded.mem_of_raised _ left, encoded.mem_of_raised _ right⟩
  · rw [arguments]
    exact (List.append_nil _).symm
  · rw [attacks, List.mem_append, List.mem_singleton, Prod.mk.injEq,
      Element.attack.injEq, eq_comm, @eq_comm _ other]
  · rw [arguments]
    exact coherent.valid
  · rintro _ _ ⟨⟩
    exact ⟨left, right⟩

theorem Coherent.newAttack (coherent : solver.Coherent) (attacker attacked : α) :
    solver.Follows (solver.newAttack attacker attacked)
      (solver.registry.newAttack attacker attacked) := by
  rw [DynamicSolver.newAttack, Registry.newAttack]
  by_cases first : attacker ∈ solver.registry.labels
  · obtain ⟨source, _, foundSource⟩ := coherent.find_of_known first
    by_cases second : attacked ∈ solver.registry.labels
    · obtain ⟨target, _, foundTarget⟩ := coherent.find_of_known second
      rw [foundSource, foundTarget, checkKnown_of_known first, checkKnown_of_known second]
      by_cases known : (attacker, attacked) ∈ solver.registry.attacks
      · rw [if_pos (coherent.hasAttack_iff.mpr known), if_pos known]
        rfl
      · rw [if_neg (mt coherent.hasAttack_iff.mp known), if_neg known, checkActiveEnds,
          coherent.checkActive_eq first, coherent.checkActive_eq second]
        by_cases left : solver.registry.active (.argument attacker) = true
        · by_cases right : solver.registry.active (.argument attacked) = true
          · obtain ⟨framework, added, consistent, arguments, attacks⟩ :=
              coherent.framework.addAttack_of_not_mem first second known
            rw [checkActive_of_active left, checkActive_of_active right, added,
              Encoding.attackBatch_of_valid (coherent.valid attacker first)
                (coherent.valid attacked second)]
            exact coherent.installAttack consistent arguments attacks known left right
          · rw [checkActive_of_active left, checkActive_of_inactive right]
            rfl
        · rw [checkActive_of_inactive left]
          rfl
    · rw [foundSource, coherent.find_of_unknown second, checkKnown_of_known first,
        checkKnown_of_unknown second]
      rfl
  · rw [coherent.find_of_unknown first, checkKnown_of_unknown first]
    rfl

/-- A patch does what its operation does. -/
theorem Coherent.applyPatch (coherent : solver.Coherent) (patch : Patch α) :
    solver.Follows (solver.applyPatch patch) (solver.registry.applyPatch patch) := by
  cases patch with
  | enable element =>
    cases element with
    | argument label =>
      simp only [DynamicSolver.applyPatch, Registry.applyPatch, coherent.hasArgument_iff]
      split
      · exact coherent.enableArgument label
      · exact coherent.newArgument label
    | attack attacker attacked =>
      simp only [DynamicSolver.applyPatch, Registry.applyPatch, coherent.hasAttack_iff]
      split
      · exact coherent.enableAttack attacker attacked
      · exact coherent.newAttack attacker attacked
  | disable element =>
    cases element with
    | argument label => exact coherent.disableArgument label
    | attack attacker attacked => exact coherent.disableAttack attacker attacked

end DynamicSolver

end Argumentation
