import Argumentation.Proofs.Framework.Construction
import Argumentation.Proofs.Solver.Activity
import Argumentation.Proofs.Solver.Scratch

/-!
# Loading a framework

A framework that was built and has valid labels is loaded into a new solver without a refusal: its
arguments come first and are active, so each attack finds its ends. Afterwards the active framework
is the one that was loaded.
-/

namespace Argumentation

open FromScratch (IsValid elements)

variable {α : Type} [DecidableEq α] [Label α]

/-- A framework that a solver can hold. -/
structure Framework.IsLoadable (framework : Framework α) : Prop where
  built : framework.IsBuilt
  valid : forall label, label ∈ framework.arguments.labels -> Label.isValid label = true

namespace Framework.IsLoadable

variable {framework later : Framework α}

theorem addArgument (loadable : framework.IsLoadable) {label : α}
    (valid : Label.isValid label = true) (done : framework.addArgument label = .ok later) :
    later.IsLoadable := by
  refine ⟨.addArgument loadable.built done, fun other member => ?_⟩
  obtain ⟨_, _, labels, _⟩ := loadable.built.consistent.of_addArgument done
  rw [labels, List.mem_append, List.mem_singleton] at member
  rcases member with old | rfl
  · exact loadable.valid other old
  · exact valid

theorem addAttack (loadable : framework.IsLoadable) {attacker attacked : α}
    (done : framework.addAttack attacker attacked = .ok later) : later.IsLoadable := by
  obtain ⟨_, _, arguments, _⟩ := loadable.built.consistent.of_addAttack done
  exact ⟨.addAttack loadable.built done, arguments ▸ loadable.valid⟩

theorem isValid (loadable : framework.IsLoadable) {element : Element α}
    (member : element ∈ elements framework) : IsValid element := by
  cases element with
  | argument label => exact loadable.valid label (FromScratch.argument_mem_elements.mp member)
  | attack attacker attacked =>
    obtain ⟨first, second⟩ :=
      Framework.ends_mem_labels (FromScratch.attack_mem_elements.mp member)
    exact ⟨loadable.valid attacker first, loadable.valid attacked second⟩

end Framework.IsLoadable

namespace Registry

omit [Label α] in
/-- Elements are added at the end and are active. -/
def enroll (registry : Registry α) (chosen : List (Element α)) : Registry α where
  labels := registry.labels ++ Encoding.labels chosen
  attacks := registry.attacks ++ Encoding.attacks chosen
  active other := decide (other ∈ chosen) || registry.active other

omit [Label α] in
/-- The account of a framework all of whose elements are active. -/
def ofFramework (framework : Framework α) : Registry α where
  labels := framework.arguments.labels
  attacks := framework.attackList
  active element := decide (element ∈ elements framework)

omit [Label α] in
theorem enroll_nil (registry : Registry α) : registry.enroll [] = registry := by
  simp [enroll, Encoding.labels, Encoding.attacks]

omit [Label α] in
theorem enroll_cons (registry : Registry α) (element : Element α) (rest : List (Element α)) :
    registry.enroll (element :: rest) = ((registry.add element).raise element).enroll rest := by
  have active (other : Element α) :
      (decide (other = element) || decide (other ∈ rest) || registry.active other) =
        (decide (other ∈ rest) || (decide (other = element) || registry.active other)) := by
    rw [Bool.or_assoc, Bool.or_left_comm]
  cases element <;>
    simp [enroll, add, raise, active, Encoding.labels, Encoding.attacks, List.filterMap_cons,
      Encoding.label?, Encoding.attack?]

omit [Label α] in
theorem enroll_append (registry : Registry α) (first second : List (Element α)) :
    registry.enroll (first ++ second) = (registry.enroll first).enroll second := by
  induction first generalizing registry with
  | nil => rw [enroll_nil, List.nil_append]
  | cons element rest ih => rw [List.cons_append, enroll_cons, enroll_cons, ih]

omit [DecidableEq α] [Label α] in
theorem not_knows_empty (element : Element α) : ¬ ({} : Registry α).Knows element := by
  cases element <;> simp [Knows]

omit [Label α] in
theorem knows_enroll {registry : Registry α} {chosen : List (Element α)} {element : Element α} :
    (registry.enroll chosen).Knows element ↔ registry.Knows element ∨ element ∈ chosen := by
  cases element <;> simp [Knows, enroll, Encoding.mem_labels, Encoding.mem_attacks]

omit [Label α] in
theorem enroll_elements (framework : Framework α) :
    ({} : Registry α).enroll (elements framework) = ofFramework framework := by
  have labels := FromScratch.labels_elements framework
  have attacks : Encoding.attacks (elements framework) = framework.attackList := by
    simp [Encoding.attacks, elements, List.filterMap_append, List.filterMap_map,
      Function.comp_def, Encoding.attack?]
  simp [enroll, ofFramework, labels, attacks]

omit [Label α] in
/-- All the elements of the framework are active. -/
theorem active_ofFramework (framework : Framework α) :
    (ofFramework framework).activeLabels = framework.arguments.labels ∧
      (ofFramework framework).activeAttacks = framework.attackList := by
  constructor
  · refine List.filter_eq_self.mpr fun label known => ?_
    exact decide_eq_true (FromScratch.argument_mem_elements.mpr known)
  · refine List.filter_eq_self.mpr fun attack known => ?_
    exact decide_eq_true (FromScratch.attack_mem_elements.mpr known)

/-- A new element is added. -/
def introduce (registry : Registry α) : Element α -> Except (Error α) (Registry α)
  | .argument label => registry.newArgument label
  | .attack attacker attacked => registry.newAttack attacker attacked

/-- An element can be added when it is new and valid and its ends are active. -/
theorem introduce_of_new {registry : Registry α} {element : Element α} (valid : IsValid element)
    (new : ¬ registry.Knows element)
    (ends : forall label, label ∈ element.ends ->
      label ∈ registry.labels ∧ registry.active (.argument label) = true) :
    registry.introduce element = .ok ((registry.add element).raise element) := by
  cases element with
  | argument label =>
    have plain : Label.isValid label = true := valid
    rw [introduce, newArgument, if_pos plain]
    exact if_neg new
  | attack attacker attacked =>
    obtain ⟨first, left⟩ := ends attacker (by simp [Element.ends])
    obtain ⟨second, right⟩ := ends attacked (by simp [Element.ends])
    have unknown : (attacker, attacked) ∉ registry.attacks := new
    simp only [introduce, newAttack, checkKnown_bind, if_pos first, if_pos second, if_neg unknown,
      checkActive_bind, if_pos left, if_pos right]
    rfl

end Registry

namespace DynamicSolver

variable {solver : DynamicSolver α}

/-- A new element is added. -/
def introduce (solver : DynamicSolver α) : Element α -> Outcome α Unit
  | .argument label => solver.newArgument label
  | .attack attacker attacked => solver.newAttack attacker attacked

theorem load_go_cons (solver : DynamicSolver α) (element : Element α) (rest : List (Element α)) :
    load.go solver (element :: rest) =
      match solver.introduce element with
      | (.ok _, next) => load.go next rest
      | (.error error, next) => (.error error, next) := by
  cases element <;> rfl

theorem load_go_append {chosen : List (Element α)} (done : (load.go solver chosen).1 = .ok ())
    (rest : List (Element α)) :
    load.go solver (chosen ++ rest) = load.go (load.go solver chosen).2 rest := by
  induction chosen generalizing solver with
  | nil => rfl
  | cons element others ih =>
    rw [List.cons_append, load_go_cons, load_go_cons] at *
    split at done
    · exact ih done
    · cases done

theorem Coherent.introduce (coherent : solver.Coherent) (element : Element α) :
    solver.Follows (solver.introduce element) (solver.registry.introduce element) := by
  cases element with
  | argument label => exact coherent.newArgument label
  | attack attacker attacked => exact coherent.newAttack attacker attacked

/-- New valid elements are added one after the other when the ends of the attacks among them are
active. -/
theorem Coherent.load_go (coherent : solver.Coherent) {chosen : List (Element α)}
    (distinct : chosen.Nodup)
    (new : forall element, element ∈ chosen -> ¬ solver.registry.Knows element)
    (valid : forall element, element ∈ chosen -> IsValid element)
    (ends : forall element, element ∈ chosen -> forall label, label ∈ element.ends ->
      solver.registry.active (.argument label) = true) :
    (load.go solver chosen).1 = .ok () ∧ (load.go solver chosen).2.Coherent ∧
      (load.go solver chosen).2.registry = solver.registry.enroll chosen := by
  induction chosen generalizing solver with
  | nil => exact ⟨rfl, coherent, (Registry.enroll_nil _).symm⟩
  | cons element rest ih =>
    obtain ⟨other, fewer⟩ := List.nodup_cons.mp distinct
    have follows := coherent.introduce element
    rw [Registry.introduce_of_new (valid element List.mem_cons_self) (new element List.mem_cons_self)
      fun label needed =>
        have active := ends element List.mem_cons_self label needed
        ⟨coherent.mem_of_active active, active⟩] at follows
    obtain ⟨done, later, registry⟩ := follows
    have added : solver.introduce element = (.ok (), (solver.introduce element).2) := Prod.ext done rfl
    rw [load_go_cons, added, Registry.enroll_cons, ← registry]
    refine ih later fewer (fun following member known => ?_)
      (fun following member => valid following (List.mem_cons_of_mem _ member))
      fun following member label needed => ?_
    · rw [registry] at known
      rcases Registry.knows_add.mp known with old | rfl
      · exact new following (List.mem_cons_of_mem _ member) old
      · exact other member
    · rw [registry]
      simp [Registry.raise, Registry.active_add,
        ends following (List.mem_cons_of_mem _ member) label needed]

/-- A framework is loaded into a new solver, which then holds it with all its elements active. -/
theorem load_exact {framework : Framework α} (loadable : framework.IsLoadable) :
    (empty.load framework).1 = .ok () ∧ (empty.load framework).2.Coherent ∧
      (empty.load framework).2.registry = Registry.ofFramework framework := by
  have fresh : (empty : DynamicSolver α).registry = {} := rfl
  obtain ⟨first, second, apart⟩ :=
    List.nodup_append.mp (FromScratch.nodup_elements loadable.built.consistent)
  have arguments : forall label, label ∈ framework.arguments.labels ->
      .argument label ∈ framework.arguments.labels.map Element.argument :=
    fun label known => List.mem_map_of_mem known
  obtain ⟨one, middle, listed⟩ := Coherent.empty.load_go first
    (fun element _ => fresh ▸ Registry.not_knows_empty element)
    (fun element member => loadable.isValid (List.mem_append_left _ member))
    fun element member label needed => by
      obtain ⟨other, _, rfl⟩ := List.mem_map.mp member
      simp [Element.ends] at needed
  obtain ⟨two, later, registry⟩ := middle.load_go second
    (fun element member known => by
      rw [listed, fresh, Registry.knows_enroll] at known
      have before := known.resolve_left (Registry.not_knows_empty element)
      exact apart element before element member rfl)
    (fun element member => loadable.isValid (List.mem_append_right _ member))
    fun element member label needed => by
      obtain ⟨attack, known, rfl⟩ := List.mem_map.mp member
      have ends := Framework.ends_mem_labels known
      rw [listed, Registry.enroll, Bool.or_eq_true, decide_eq_true_eq]
      rcases List.mem_pair.mp needed with rfl | rfl
      · exact .inl (arguments _ ends.1)
      · exact .inl (arguments _ ends.2)
  rw [listed, fresh, ← Registry.enroll_append] at registry
  rw [← Registry.enroll_elements]
  rw [← load_go_append one] at two later registry
  exact ⟨two, later, registry⟩

/-- The active framework is then the loaded one. -/
theorem activeFramework_load {framework : Framework α} (loadable : framework.IsLoadable) :
    ∃ active, (empty.load framework).2.activeFramework = .ok active ∧
      active.arguments.labels = framework.arguments.labels ∧
      active.attackList = framework.attackList := by
  obtain ⟨_, coherent, registry⟩ := load_exact loadable
  obtain ⟨active, found, _, labels, attacks⟩ := coherent.activeFramework
  rw [registry] at labels attacks
  obtain ⟨allLabels, allAttacks⟩ := Registry.active_ofFramework framework
  exact ⟨active, found, labels.trans allLabels, attacks.trans allAttacks⟩

end DynamicSolver

end Argumentation
