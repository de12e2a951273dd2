import Argumentation.Proofs.Solver.Answers
import Argumentation.Proofs.Solver.History

/-!
# Activity after a run

The history of a run lists what its operations and patches changed; refused ones and queries change
nothing. The solver knows the elements that were added, in their order, and the active ones are
those that the history says.
-/

namespace Argumentation

variable {α : Type}

namespace DynamicSolver

variable [DecidableEq α] [Label α] {solver : DynamicSolver α}

omit [DecidableEq α] [Label α] in
/-- A change that an operation was to make, if the operation was not refused. -/
def madeBy (outcome : Outcome α Unit) (change : Patch α) : Option (Patch α) :=
  match outcome.1 with
  | .ok _ => some change
  | .error _ => none

/-- The change that a solver makes when it is asked to do something; queries make none. -/
def change? (solver : DynamicSolver α) : Request α -> Option (Patch α)
  | .newArgument label => madeBy (solver.newArgument label) (.enable (.argument label))
  | .enableArgument label => madeBy (solver.enableArgument label) (.enable (.argument label))
  | .disableArgument label => madeBy (solver.disableArgument label) (.disable (.argument label))
  | .newAttack attacker attacked =>
    madeBy (solver.newAttack attacker attacked) (.enable (.attack attacker attacked))
  | .enableAttack attacker attacked =>
    madeBy (solver.enableAttack attacker attacked) (.enable (.attack attacker attacked))
  | .disableAttack attacker attacked =>
    madeBy (solver.disableAttack attacker attacked) (.disable (.attack attacker attacked))
  | .applyPatch patch => madeBy (solver.applyPatch patch) patch
  | .enumerate _ | .count _ | .computeOne _ | .isAccepted _ _ => none

/-- The changes that requests make to a solver, one after the other. -/
def historyFrom (solver : DynamicSolver α) : List (Request α) -> History α
  | [] => []
  | request :: rest => (solver.change? request).toList ++ historyFrom (solver.perform request) rest

/-- The history of a run. -/
def history (requests : List (Request α)) : History α :=
  historyFrom empty requests

theorem history_append_singleton (requests : List (Request α)) (request : Request α) :
    history (requests ++ [request]) =
      history requests ++ ((run requests).change? request).toList := by
  have general : forall solver : DynamicSolver α,
      solver.historyFrom (requests ++ [request]) =
        solver.historyFrom requests ++
          ((requests.foldl perform solver).change? request).toList := by
    induction requests with
    | nil => simp [historyFrom]
    | cons first rest ih => simp [historyFrom, ih]
  exact general empty

/-- An operation that follows its registry changes it as its change says, if it is carried out. -/
theorem Follows.registry_eq {outcome : Outcome α Unit} {expected : Except (Error α) (Registry α)}
    (coherent : solver.Coherent) (follows : solver.Follows outcome expected) {change : Patch α}
    (means : forall later, expected = .ok later -> later = solver.registry.follow change) :
    outcome.2.registry = (madeBy outcome change).toList.foldl Registry.follow solver.registry := by
  rw [(coherent.of_follows follows).2]
  cases expected with
  | ok later =>
    have done : outcome.1 = .ok () := follows.1
    simp [madeBy, done, Registry.after, means later rfl]
  | error error =>
    have refused : outcome = (.error error, solver) := follows
    simp [madeBy, refused, Registry.after]

theorem Coherent.registry_perform (coherent : solver.Coherent) (request : Request α) :
    (solver.perform request).registry =
      (solver.change? request).toList.foldl Registry.follow solver.registry := by
  cases request with
  | newArgument label =>
    exact (coherent.newArgument label).registry_eq coherent fun _ => Registry.follow_of_newArgument
  | enableArgument label =>
    exact (coherent.enableArgument label).registry_eq coherent
      fun _ => Registry.follow_of_enableArgument
  | disableArgument label =>
    exact (coherent.disableArgument label).registry_eq coherent
      fun _ => Registry.follow_of_disableArgument
  | newAttack attacker attacked =>
    exact (coherent.newAttack attacker attacked).registry_eq coherent
      fun _ => Registry.follow_of_newAttack
  | enableAttack attacker attacked =>
    exact (coherent.enableAttack attacker attacked).registry_eq coherent
      fun _ => Registry.follow_of_enableAttack
  | disableAttack attacker attacked =>
    exact (coherent.disableAttack attacker attacked).registry_eq coherent
      fun _ => Registry.follow_of_disableAttack
  | applyPatch patch =>
    exact (coherent.applyPatch patch).registry_eq coherent fun _ => Registry.follow_of_applyPatch
  | enumerate _ | count _ | computeOne _ | isAccepted _ _ => exact (coherent.perform _).2

/-- The registry after a run is the one that its history leads to. -/
theorem registry_run (requests : List (Request α)) :
    (run requests).registry = Registry.ofHistory (history requests) := by
  induction requests using List.reverseRecOn with
  | nil => rfl
  | append_singleton requests request ih =>
    rw [run_append_singleton, history_append_singleton,
      (coherent_run requests).1.registry_perform, ih, Registry.ofHistory, Registry.ofHistory,
      List.foldl_append]

section Activity

omit [Label α] in
/-- Whether an element was added. -/
def hasElement (solver : DynamicSolver α) : Element α -> Bool
  | .argument label => solver.hasArgument label
  | .attack attacker attacked => solver.hasAttack attacker attacked

omit [Label α] in
/-- Whether a known element is active. -/
def isActive (solver : DynamicSolver α) : Element α -> Except (Error α) Bool
  | .argument label => solver.isActiveArgument label
  | .attack attacker attacked => solver.isActiveAttack attacker attacked

theorem Coherent.hasElement_iff (coherent : solver.Coherent) {element : Element α} :
    solver.hasElement element = true ↔ solver.registry.Knows element := by
  cases element with
  | argument label => exact coherent.hasArgument_iff
  | attack attacker attacked => exact coherent.hasAttack_iff

theorem Coherent.isActive_of_known (coherent : solver.Coherent) {element : Element α}
    (known : solver.registry.Knows element) :
    solver.isActive element = .ok (solver.registry.active element) := by
  cases element with
  | argument label => exact coherent.isActiveArgument known
  | attack attacker attacked => exact coherent.isActiveAttack known

/-- The activity of an attack is told by the registry; what is unknown is reported. -/
theorem Coherent.isActiveAttack_eq (coherent : solver.Coherent) (attacker attacked : α) :
    solver.isActiveAttack attacker attacked = (do
      solver.registry.checkKnown attacker
      solver.registry.checkKnown attacked
      solver.registry.checkAttack attacker attacked
      .ok (solver.registry.active (.attack attacker attacked))) := by
  rw [DynamicSolver.isActiveAttack, coherent.checkKnownAttack_eq]
  simp only [bind_assoc, Registry.checkAttack_bind]
  by_cases known : (attacker, attacked) ∈ solver.registry.attacks
  · rw [coherent.flag_attack known]
  · simp only [known, if_false]

theorem Coherent.isActive_eq_true_iff (coherent : solver.Coherent) {element : Element α} :
    solver.isActive element = .ok true ↔ solver.registry.active element = true := by
  constructor
  · intro active
    by_cases known : solver.registry.Knows element
    · rw [coherent.isActive_of_known known] at active
      exact Except.ok.inj active
    · cases element with
      | argument label =>
        rw [isActive, coherent.isActiveArgument_of_unknown known] at active
        cases active
      | attack attacker attacked =>
        have refused : (attacker, attacked) ∉ solver.registry.attacks := known
        rw [isActive, coherent.isActiveAttack_eq, Registry.checkKnown_ends,
          Registry.checkAttack_bind, if_neg refused] at active
        split at active <;> cases active
  · intro active
    have known : solver.registry.Knows element := by
      cases element with
      | argument label => exact coherent.mem_of_active active
      | attack attacker attacked => exact coherent.attack_mem_of_active active
    rw [coherent.isActive_of_known known, active]

/-- Enabling an argument leaves the activity of the attacks as it is. -/
theorem Coherent.isActiveAttack_perform (coherent : solver.Coherent) {request : Request α}
    {label : α} (enables : solver.change? request = some (.enable (.argument label)))
    (attacker attacked : α) :
    (solver.perform request).isActiveAttack attacker attacked = .ok true ↔
      solver.isActiveAttack attacker attacked = .ok true := by
  have later := (coherent.perform request).1
  have registry : (solver.perform request).registry =
      solver.registry.follow (.enable (.argument label)) := by
    rw [coherent.registry_perform, enables]
    rfl
  have told : (solver.perform request).isActive (.attack attacker attacked) = .ok true ↔ _ :=
    later.isActive_eq_true_iff
  rw [registry, Registry.active_follow, ← coherent.isActive_eq_true_iff] at told
  simpa [History.endings, isActive] using told

end Activity

/-- After any run, the history of the run tells which known elements are active. Active attacks
join active arguments, enabling an argument brings no attack back, and the active framework
has the active elements in the order in which they were first added. -/
theorem activity_run (requests : List (Request α)) :
    let solver := run requests
    let history := history requests
    (forall element, solver.hasElement element = true ->
      ∃ active last, solver.isActive element = .ok active ∧
        history.LastAt (.enable element) last ∧
        (active = true ↔ history.EndedBefore element last)) ∧
    (forall attacker attacked, solver.isActiveAttack attacker attacked = .ok true ->
      solver.isActiveArgument attacker = .ok true ∧
        solver.isActiveArgument attacked = .ok true) ∧
    (forall request label attacker attacked,
      solver.change? request = some (.enable (.argument label)) ->
        ((solver.perform request).isActiveAttack attacker attacked = .ok true ↔
          solver.isActiveAttack attacker attacked = .ok true)) ∧
    ∃ framework, solver.activeFramework = .ok framework ∧
      framework.arguments.labels = (Encoding.labels history.added).filter
        (fun label => solver.isActiveArgument label matches .ok true) ∧
      framework.attackList = (Encoding.attacks history.added).filter
        fun attack => solver.isActiveAttack attack.1 attack.2 matches .ok true := by
  intro solver history
  have coherent : solver.Coherent := (coherent_run requests).1
  have account : solver.registry = Registry.ofHistory history := registry_run requests
  have lists := Registry.lists_ofHistory history
  obtain ⟨framework, active, _, labels, attacks⟩ := coherent.activeFramework
  refine ⟨fun element added => ?_, fun attacker attacked active => ?_,
    fun request label attacker attacked enables =>
      coherent.isActiveAttack_perform enables attacker attacked, framework, active, ?_, ?_⟩
  · have known := coherent.hasElement_iff.mp added
    have enabled : .enable element ∈ history := by
      rw [account, lists.knows_iff, History.mem_added] at known
      exact known
    obtain ⟨last, stands⟩ := History.exists_lastAt enabled
    refine ⟨_, last, coherent.isActive_of_known known, stands, ?_⟩
    rw [account, Registry.active_ofHistory]
    constructor
    · rintro ⟨other, stands', ended⟩
      exact stands'.unique stands ▸ ended
    · exact fun ended => ⟨last, stands, ended⟩
  · have joined := coherent.ends attacker attacked (coherent.isActive_eq_true_iff.mp active)
    exact ⟨coherent.isActive_eq_true_iff.mpr joined.1, coherent.isActive_eq_true_iff.mpr joined.2⟩
  · rw [labels, Registry.activeLabels, ← lists.labels, ← account]
    refine List.filter_congr fun label known => ?_
    rw [coherent.isActiveArgument known]
    cases solver.registry.active (.argument label) <;> rfl
  · rw [attacks, Registry.activeAttacks, ← lists.attacks, ← account]
    refine List.filter_congr fun attack known => ?_
    rw [coherent.isActiveAttack known]
    cases solver.registry.active (.attack attack.1 attack.2) <;> rfl

/-- An argument goes away, an attack on it is refused, and it comes back without the old attack. -/
def comeback : List (Request Int) :=
  [.newArgument 1, .newArgument 2, .newAttack 1 2, .applyPatch (.disable (.argument 2)),
    .enableAttack 1 2, .enableArgument 2, .newAttack 2 2, .count { engine := .scripted [] }]

theorem activity_run_comeback :
    let solver := run comeback
    let past := history comeback
    solver.hasElement (.attack 1 2) = true ∧ solver.isActive (.attack 1 2) = .ok false ∧
      (∃ last, past.LastAt (.enable (.attack 1 2)) last ∧
        ¬ past.EndedBefore (.attack 1 2) last) ∧
      solver.isActiveAttack 2 2 = .ok true ∧ solver.isActiveArgument 2 = .ok true ∧
      solver.change? (.enableArgument 2) = some (.enable (.argument 2)) ∧
      (solver.perform (.enableArgument 2)).isActiveAttack 1 2 ≠ .ok true := by
  intro solver past
  obtain ⟨decided, joined, unmoved, _⟩ := activity_run comeback
  have known : solver.hasElement (.attack 1 2) = true := by decide +kernel
  have inactive : solver.isActive (.attack 1 2) = .ok false := by decide +kernel
  have loop : solver.isActiveAttack 2 2 = .ok true := by decide +kernel
  have enables : solver.change? (.enableArgument 2) = some (.enable (.argument 2)) := by
    decide +kernel
  obtain ⟨active, last, told, stands, ended⟩ := decided (.attack 1 2) known
  have no : false = active := Except.ok.inj (inactive.symm.trans told)
  refine ⟨known, inactive, ⟨last, stands, fun before => ?_⟩, loop, (joined 2 2 loop).1, enables,
    fun back => ?_⟩
  · exact Bool.false_ne_true (no.trans (ended.mpr before))
  · have before := (unmoved _ 2 1 2 enables).mp back
    exact Bool.false_ne_true (Except.ok.inj (inactive.symm.trans before))

end DynamicSolver

end Argumentation
