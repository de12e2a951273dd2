import Argumentation.Proofs.Session.Elements
import Argumentation.Proofs.Solver.Registry

/-!
# Accounts of sessions

The plain account of the requests to a session to which batches of arguments and attacks are
applied: an element is taken in once its ends are known, and is active as its flag was set last.
Nothing keeps an attack from being active while its ends are not.
-/

namespace Argumentation

variable {α : Type}

/-- The arguments that an element needs: an attack needs both its ends. -/
def Element.ends : Element α -> List α
  | .argument _ => []
  | .attack attacker attacked => [attacker, attacked]

namespace Registry

/-- Adds an element, as the last of its kind. -/
def add (registry : Registry α) : Element α -> Registry α
  | .argument label => { registry with labels := registry.labels ++ [label] }
  | .attack attacker attacked =>
    { registry with attacks := registry.attacks ++ [(attacker, attacked)] }

theorem knows_add {registry : Registry α} {element other : Element α} :
    (registry.add element).Knows other ↔ registry.Knows other ∨ other = element := by
  cases element <;> cases other <;> simp [add, Knows]

variable [DecidableEq α]

/-- Adds a new element whose ends are known; any other is left out. -/
def takeIn (registry : Registry α) (element : Element α) : Registry α :=
  if ¬ registry.Knows element ∧ forall label, label ∈ element.ends -> label ∈ registry.labels then
    registry.add element
  else registry

/-- A known element becomes active or inactive. -/
def assign (registry : Registry α) (element : Element α) (value : Bool) : Registry α :=
  if registry.Knows element then
    if value then registry.raise element else registry.lower element
  else registry

/-- The account of one more request to a session. Queries do nothing, and neither do batches with
other rules than those of their element. -/
def record (registry : Registry α) : Session.Request α -> Registry α
  | .apply batch =>
    if batch = Encoding.batchOf batch.element then registry.takeIn batch.element else registry
  | .setFlag element value => registry.assign element value
  | .solve _ _ | .findModel _ _ => registry

theorem record_apply (registry : Registry α) (element : Element α) :
    registry.record (.apply (Encoding.batchOf element)) = registry.takeIn element :=
  if_pos rfl

/-- The account of the requests to a session. -/
def ofRequests (requests : List (Session.Request α)) : Registry α :=
  requests.foldl record {}

theorem knows_takeIn {registry : Registry α} {element : Element α}
    (ends : forall label, label ∈ element.ends -> label ∈ registry.labels) :
    (registry.takeIn element).Knows element := by
  unfold takeIn
  split
  · exact knows_add.mpr (.inr rfl)
  · rename_i left
    by_contra unknown
    exact left ⟨unknown, ends⟩

theorem ofRequests_append_singleton (requests : List (Session.Request α))
    (request : Session.Request α) :
    ofRequests (requests ++ [request]) = (ofRequests requests).record request := by
  simp [ofRequests]

/-- What is known stays known. -/
theorem Knows.record {registry : Registry α} {element : Element α}
    (known : registry.Knows element) (request : Session.Request α) :
    (registry.record request).Knows element := by
  cases request with
  | apply batch =>
    simp only [Registry.record, takeIn]
    split
    · split
      · exact knows_add.mpr (.inl known)
      · exact known
    · exact known
  | setFlag other value =>
    have kept : (registry.assign other value).Knows element ↔ registry.Knows element := by
      unfold assign
      split
      · cases element <;> cases value <;> rfl
      · exact .rfl
    exact kept.mpr known
  | solve engine deadline => exact known
  | findModel engine atoms => exact known

/-- An element is known from the time when its batch is applied, if its ends were known then. -/
theorem knows_ofRequests {before : List (Session.Request α)} {element : Element α}
    (ends : forall label, label ∈ element.ends -> label ∈ (ofRequests before).labels)
    (after : List (Session.Request α)) :
    (ofRequests (before ++ .apply (Encoding.batchOf element) :: after)).Knows element := by
  induction after using List.reverseRecOn with
  | nil =>
    rw [ofRequests_append_singleton, record_apply]
    exact knows_takeIn ends
  | append_singleton after request ih =>
    rw [← List.cons_append, ← List.append_assoc, ofRequests_append_singleton]
    exact ih.record request

/-- An argument is known once its batch is applied. -/
theorem mem_labels_of_apply {requests : List (Session.Request α)} {label : α}
    (applied : .apply (Encoding.batchOf (.argument label)) ∈ requests) :
    label ∈ (ofRequests requests).labels := by
  obtain ⟨before, after, rfl⟩ := List.append_of_mem applied
  exact @knows_ofRequests _ _ before (.argument label) (by simp [Element.ends]) after

end Registry

end Argumentation
