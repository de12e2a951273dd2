import Argumentation.Proofs.Solver.Representation
import Argumentation.Proofs.Solver.Runs

/-!
# Answers of the solver

The queries of a coherent solver are about its active framework: the active elements of its
registry, in the order in which they were first added. With a sound and complete engine and without
a time limit, they answer with the extensions of this framework.
-/

namespace Argumentation.DynamicSolver

variable {α : Type} [DecidableEq α] [Label α] {solver : DynamicSolver α}

/-- The activity of a known argument is that of the registry. -/
theorem Coherent.isActiveArgument (coherent : solver.Coherent) {label : α}
    (known : label ∈ solver.registry.labels) :
    solver.isActiveArgument label = .ok (solver.registry.active (.argument label)) := by
  obtain ⟨id, _, found⟩ := coherent.find_of_known known
  rw [DynamicSolver.isActiveArgument, found, coherent.flag_argument known]
  rfl

theorem Coherent.isActiveArgument_of_unknown (coherent : solver.Coherent) {label : α}
    (unknown : label ∉ solver.registry.labels) :
    solver.isActiveArgument label = .error (.unknownArgument label) := by
  rw [DynamicSolver.isActiveArgument, coherent.find_of_unknown unknown]
  rfl

theorem Coherent.isActiveAttack (coherent : solver.Coherent) {attacker attacked : α}
    (known : (attacker, attacked) ∈ solver.registry.attacks) :
    solver.isActiveAttack attacker attacked =
      .ok (solver.registry.active (.attack attacker attacked)) := by
  obtain ⟨first, second⟩ := Framework.ends_mem_labels known
  rw [DynamicSolver.isActiveAttack, coherent.checkKnownAttack_eq, checkKnown_of_known first,
    checkKnown_of_known second, Registry.checkAttack, if_pos known, coherent.flag_attack known]
  rfl

omit [DecidableEq α] [Label α] in
/-- The chosen ones among some items are added to a framework in their order, when each addition
works as long as the item is new. -/
theorem foldlM_chosen {β : Type} {chosen : β -> Except (Error α) Bool} {keep : β -> Bool}
    {add : Framework α -> β -> Except (Error α) (Framework α)} {invariant : Framework α -> Prop}
    (listed : Framework α -> List β) (items : List β)
    (decided : forall item, item ∈ items -> chosen item = .ok (keep item))
    (added : forall framework item, invariant framework -> item ∈ items -> keep item = true ->
      item ∉ listed framework ->
        ∃ next, add framework item = .ok next ∧ invariant next ∧
          listed next = listed framework ++ [item])
    {framework : Framework α} (holds : invariant framework)
    (distinct : (listed framework ++ items).Nodup) :
    ∃ later, items.foldlM (fun active item => do
        if ← chosen item then add active item else .ok active) framework = .ok later ∧
      invariant later ∧ listed later = listed framework ++ items.filter keep := by
  induction items generalizing framework with
  | nil => exact ⟨framework, rfl, holds, by simp⟩
  | cons item rest ih =>
    have others : forall other, other ∈ rest -> other ∈ item :: rest := fun _ member =>
      List.mem_cons_of_mem item member
    replace ih := @ih (fun other member => decided other (others other member))
      (fun framework other holds member => added framework other holds (others other member))
    rw [List.foldlM_cons, decided item List.mem_cons_self]
    cases kept : keep item with
    | true =>
      have new : item ∉ listed framework := by
        intro member
        exact (List.nodup_append.mp distinct).2.2 item member item List.mem_cons_self rfl
      obtain ⟨next, done, again, list⟩ := added framework item holds List.mem_cons_self kept new
      obtain ⟨later, finished, final, all⟩ := ih again (by
        rw [list, List.append_assoc]
        exact distinct)
      refine ⟨later, ?_, final, ?_⟩
      · rw [← finished]
        exact congrArg (· >>= _) done
      · simp [all, list, kept]
    | false =>
      have fewer : (listed framework ++ rest).Nodup :=
        distinct.sublist ((List.sublist_cons_self item rest).append_left _)
      obtain ⟨later, done, final, all⟩ := ih holds fewer
      exact ⟨later, done, final, by simp [all, kept]⟩

theorem Coherent.mem_of_active (coherent : solver.Coherent) {label : α}
    (active : solver.registry.active (.argument label) = true) :
    label ∈ solver.registry.labels := by
  obtain ⟨ledger, encoded⟩ := coherent.encoded
  exact coherent.argument_mem_iff.mp (encoded.mem_of_raised _ active)

theorem Coherent.attack_mem_of_active (coherent : solver.Coherent) {attacker attacked : α}
    (active : solver.registry.active (.attack attacker attacked) = true) :
    (attacker, attacked) ∈ solver.registry.attacks := by
  obtain ⟨ledger, encoded⟩ := coherent.encoded
  exact (coherent.attacks attacker attacked).mp (encoded.mem_of_raised _ active)

/-- The session represents every framework with the active elements. -/
theorem Coherent.represents (coherent : solver.Coherent) {framework : Framework α}
    (labels : framework.arguments.labels = solver.registry.activeLabels)
    (attacks : framework.attackList = solver.registry.activeAttacks) :
    solver.session.Represents framework where
  encoded := coherent.encoded
  distinct := by
    rw [coherent.labels]
    exact coherent.framework.arguments.distinct
  labels := by
    rw [coherent.labels]
    exact labels
  attacks attacker attacked := by
    rw [attacks, Registry.activeAttacks, List.mem_filter]
    exact and_iff_right_of_imp coherent.attack_mem_of_active

/-- The active arguments are added in their order. -/
theorem Coherent.foldlM_addArgument (coherent : solver.Coherent) :
    ∃ later, solver.registry.labels.foldlM (fun active label => do
        if ← solver.isActiveArgument label then active.addArgument label else .ok active)
          ({} : Framework α) = .ok later ∧
      (later.Consistent ∧ later.attackList = []) ∧
      later.arguments.labels = solver.registry.activeLabels := by
  refine foldlM_chosen (fun framework => framework.arguments.labels) _
    (fun label => coherent.isActiveArgument) ?_ ⟨.empty, rfl⟩
    coherent.framework.arguments.distinct
  rintro framework label ⟨consistent, empty⟩ _ _ new
  obtain ⟨next, added, again, labels, attacks⟩ := consistent.addArgument_of_not_mem new
  exact ⟨next, added, ⟨again, attacks.trans empty⟩, labels⟩

/-- The active attacks are added in their order. -/
theorem Coherent.foldlM_addAttack (coherent : solver.Coherent) {framework : Framework α}
    (consistent : framework.Consistent) (empty : framework.attackList = [])
    (labels : framework.arguments.labels = solver.registry.activeLabels) :
    ∃ later, solver.registry.attacks.foldlM (fun active attack => do
        if ← solver.isActiveAttack attack.1 attack.2 then active.addAttack attack.1 attack.2
        else .ok active) framework = .ok later ∧
      (later.Consistent ∧ later.arguments = framework.arguments) ∧
      later.attackList = framework.attackList ++ solver.registry.activeAttacks := by
  have known : forall label, solver.registry.active (.argument label) = true ->
      label ∈ framework.arguments.labels := by
    intro label active
    rw [labels]
    exact List.mem_filter.mpr ⟨coherent.mem_of_active active, active⟩
  refine foldlM_chosen Framework.attackList _ (fun attack => coherent.isActiveAttack) ?_
    ⟨consistent, rfl⟩ (empty ▸ coherent.framework.nodup_attackList)
  rintro middle ⟨attacker, attacked⟩ ⟨consistent, same⟩ _ active new
  obtain ⟨first, second⟩ := coherent.ends attacker attacked active
  obtain ⟨next, added, again, arguments, attacks⟩ := consistent.addAttack_of_not_mem
    (same ▸ known attacker first) (same ▸ known attacked second) new
  exact ⟨next, added, ⟨again, arguments.trans same⟩, attacks⟩

/-- The active framework has the active elements in the order in which they were added. -/
theorem Coherent.activeFramework (coherent : solver.Coherent) :
    ∃ framework, solver.activeFramework = .ok framework ∧ framework.Consistent ∧
      framework.arguments.labels = solver.registry.activeLabels ∧
      framework.attackList = solver.registry.activeAttacks := by
  obtain ⟨first, firstDone, ⟨consistent, empty⟩, labels⟩ := coherent.foldlM_addArgument
  obtain ⟨second, secondDone, ⟨final, same⟩, attacks⟩ :=
    coherent.foldlM_addAttack consistent empty labels
  refine ⟨second, ?_, final, (congrArg ArgumentSet.labels same).trans labels, ?_⟩
  · rw [← secondDone]
    exact congrArg (· >>= _) firstDone
  · rw [attacks, empty, List.nil_append]

section Queries

variable {framework : Framework α} {setting : Setting}

omit [Label α] in
/-- The extensions that an enumeration lists. -/
theorem enumerate_exact (represents : solver.session.Represents framework)
    (unlimited : setting.timeout = none) (sound : setting.engine.Sound)
    (complete : setting.engine.Complete) :
    ∃ extensions, (solver.enumerate setting).1 = .ok extensions ∧ extensions.Nodup ∧
      forall extension, extension ∈ extensions ↔ framework.IsExtension extension :=
  (represents.note .info solver.enumerationNote).enumerate unlimited sound complete

omit [DecidableEq α] [Label α] in
/-- The number of extensions is that of an enumeration. -/
theorem count_of_enumerate {extensions : List (Extension α)}
    (solved : (solver.enumerate setting).1 = .ok extensions) :
    (solver.count setting).1 = .ok extensions.length :=
  congrArg (Except.map List.length) solved

/-- An argument that is not active is not accepted. -/
theorem Coherent.isAccepted_of_inactive (coherent : solver.Coherent) {label : α}
    (known : label ∈ solver.registry.labels)
    (inactive : solver.registry.active (.argument label) = false) :
    (solver.isAccepted setting label).1 = .ok false := by
  simp only [DynamicSolver.isAccepted, coherent.isActiveArgument known, inactive]

/-- A known argument is accepted when an extension has it. -/
theorem Coherent.isAccepted_exact (coherent : solver.Coherent)
    (represents : solver.session.Represents framework) (sound : setting.engine.Sound)
    (complete : setting.engine.Complete) {label : α} (known : label ∈ solver.registry.labels) :
    ∃ accepted, (solver.isAccepted setting label).1 = .ok accepted ∧
      (accepted = true ↔ ∃ extension, framework.IsExtension extension ∧ label ∈ extension) := by
  cases active : solver.registry.active (.argument label) with
  | true =>
    simp only [DynamicSolver.isAccepted, coherent.isActiveArgument known, active]
    exact represents.findModel_inside sound complete (coherent.argument_mem_iff.mpr known)
  | false =>
    refine ⟨false, coherent.isAccepted_of_inactive known active, by simp, ?_⟩
    rintro ⟨extension, isExtension, member⟩
    have raised := (represents.mem_labels_iff label).mp (isExtension.sublist.subset member)
    exact absurd raised (by simpa [registry] using active)

theorem Coherent.isAccepted_of_unknown (coherent : solver.Coherent) {label : α}
    (unknown : label ∉ solver.registry.labels) :
    (solver.isAccepted setting label).1 = .error (.unknownArgument label) := by
  simp only [DynamicSolver.isAccepted, coherent.isActiveArgument_of_unknown unknown]

end Queries

/-- After any run, without a time limit and with a sound and complete engine, an enumeration lists
the extensions of the active framework, each admissible set once; the number of extensions, the one
extension and the accepted arguments are those of this list. -/
theorem answers_run (requests : List (Request α)) (setting : Setting)
    (unlimited : setting.timeout = none) (sound : setting.engine.Sound)
    (complete : setting.engine.Complete) :
    let solver := run requests
    let registry := Registry.run requests
    ∃ framework extensions, solver.activeFramework = .ok framework ∧
      framework.arguments.labels = registry.activeLabels ∧
      framework.attackList = registry.activeAttacks ∧
      (solver.enumerate setting).1 = .ok extensions ∧ extensions.Nodup ∧
      (forall extension, extension ∈ extensions ↔ framework.IsExtension extension) ∧
      (forall members, IsAdmissible (fun label => label ∈ framework.arguments.labels)
          (fun attacker attacked => (attacker, attacked) ∈ framework.attackList) members ->
        ∃! extension, extension ∈ extensions ∧
          forall label, label ∈ extension ↔ label ∈ members) ∧
      (solver.count setting).1 = .ok extensions.length ∧
      (∃ extension, extension ∈ extensions ∧
        (solver.computeOne setting).1 = .ok (some extension)) ∧
      forall label, (solver.isAccepted setting label).1 =
        if label ∈ registry.labels then
          .ok (extensions.any fun extension => extension.contains label)
        else .error (.unknownArgument label) := by
  intro solver registry
  obtain ⟨coherent, account⟩ := coherent_run requests
  have same : solver.registry = registry := account
  obtain ⟨framework, active, consistent, labels, attacks⟩ := coherent.activeFramework
  have represents := coherent.represents labels attacks
  obtain ⟨extensions, solved, nodup, exact⟩ :=
    enumerate_exact represents unlimited sound complete
  obtain ⟨one, computed, isExtension⟩ := represents.findModel sound complete
  refine ⟨framework, extensions, active, same ▸ labels, same ▸ attacks, solved, nodup, exact, ?_,
    count_of_enumerate solved, ⟨one, (exact one).mpr isExtension, computed⟩, fun label => ?_⟩
  · intro members admissible
    simp only [exact]
    exact consistent.existsUnique_isExtension admissible
  · rw [← same]
    split
    · rename_i known
      obtain ⟨accepted, answered, means⟩ :=
        coherent.isAccepted_exact represents sound complete known
      rw [answered, Except.ok.injEq, Bool.eq_iff_iff, means]
      simp [exact]
    · rename_i unknown
      exact coherent.isAccepted_of_unknown unknown

/-- Two arguments that attacked each other until one of the attacks went away; a refused attack, and
an enumeration that an engine answered wrongly. -/
def oneSided : List (Request Int) :=
  [.newArgument 1, .newArgument 2, .newAttack 1 2, .newAttack 1 3, .newAttack 2 1,
    .enumerate { engine := .scripted [.satisfiable ⟨[]⟩, .unknown] }, .disableAttack 2 1]

theorem answers_run_oneSided :
    ({ engine := .searching } : Setting).timeout = none ∧ Sat.Engine.searching.Sound ∧
      Sat.Engine.searching.Complete ∧
      ∃ extensions, ((run oneSided).enumerate { engine := .searching }).1 = .ok extensions ∧
        [1] ∈ extensions ∧ [2] ∉ extensions := by
  obtain ⟨framework, extensions, _, labels, attacks, solved, _, exact, _⟩ :=
    answers_run oneSided { engine := .searching } rfl Sat.Engine.searching_sound
      Sat.Engine.searching_complete
  have arguments : framework.arguments.labels = [1, 2] := labels.trans (by decide +kernel)
  have attack : framework.attackList = [(1, 2)] := attacks.trans (by decide +kernel)
  refine ⟨rfl, Sat.Engine.searching_sound, Sat.Engine.searching_complete, extensions, solved,
    (exact _).mpr ⟨?_, ?_, ?_, ?_⟩, fun member => ?_⟩
  · rw [arguments]
    decide
  · simp [arguments]
  · simp [attack]
  · simp [attack]
  · obtain ⟨_, admissible⟩ := (exact _).mp member
    have undefended := admissible.defended 1 2
    simp [attack] at undefended

end Argumentation.DynamicSolver
