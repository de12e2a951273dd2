import Argumentation.Program.Rule
import Argumentation.Sat.Literal

/-!
# Ledgers

A ledger records what each variable of a session stands for. Variables are numbered from one in the
order of their entries, so a variable has one role for good and no two roles share a variable.
-/

namespace Argumentation

/-- What a variable stands for. -/
inductive Role (α : Type) where
  /-- An atom; a structural one has the variable of its flag. -/
  | atom (atom : Atom α)
  /-- The body of a derivation. -/
  | support (head : Atom α) (body : List (BodyLiteral α))
  /-- A selector that guards a completion clause of an atom. -/
  | completion (atom : Atom α)
  /-- A selector that guards the clauses of one enumeration. -/
  | enumeration

/-- The derivation whose body a role is. -/
def Role.derivation? {α : Type} : Role α -> Option (Atom α × List (BodyLiteral α))
  | .support head body => some (head, body)
  | _ => none

/-- The roles of the variables one, two and so on. -/
structure Ledger (α : Type) where
  roles : List (Role α) := []

namespace Ledger

variable {α : Type}

/-- The number of variables that have a role. -/
def size (ledger : Ledger α) : Nat :=
  ledger.roles.length

/-- The role of a variable. -/
def role? (ledger : Ledger α) : Nat -> Option (Role α)
  | 0 => none
  | index + 1 => ledger.roles[index]?

/-- Gives a role to the next variable. -/
def push (ledger : Ledger α) (role : Role α) : Ledger α :=
  ⟨ledger.roles ++ [role]⟩

/-- The derivations whose bodies have a variable, in order. -/
def derivations (ledger : Ledger α) : List (Atom α × List (BodyLiteral α)) :=
  ledger.roles.filterMap Role.derivation?

@[simp]
theorem role?_empty (var : Nat) : ({} : Ledger α).role? var = none := by
  cases var <;> rfl

@[simp]
theorem size_push (ledger : Ledger α) (role : Role α) :
    (ledger.push role).size = ledger.size + 1 := by
  simp [size, push]

/-- A variable with a role is one of those that were counted. -/
theorem bounds {ledger : Ledger α} {var : Nat} {role : Role α}
    (found : ledger.role? var = some role) : 0 < var ∧ var <= ledger.size := by
  cases var with
  | zero => cases found
  | succ index =>
    have inside := (List.getElem?_eq_some_iff.mp found).1
    simp only [size]
    omega

/-- A new role goes to the next variable, and the others keep theirs. -/
theorem role?_push {ledger : Ledger α} {role other : Role α} {var : Nat} :
    (ledger.push role).role? var = some other ↔
      ledger.role? var = some other ∨ var = ledger.size + 1 ∧ other = role := by
  cases var with
  | zero => simp [role?]
  | succ index =>
    simp only [role?, push, size, List.getElem?_append, List.getElem?_singleton]
    by_cases before : index < ledger.roles.length
    · simp only [before, if_true]
      constructor
      · exact .inl
      · rintro (found | ⟨same, _⟩)
        · exact found
        · omega
    · have outside : ledger.roles[index]? = none := List.getElem?_eq_none_iff.mpr (by omega)
      simp only [before, if_false, outside]
      by_cases next : index = ledger.roles.length
      · simp [next, eq_comm]
      · simp [next, show index - ledger.roles.length ≠ 0 by omega]

theorem role?_push_of_some {ledger : Ledger α} {role other : Role α} {var : Nat}
    (found : ledger.role? var = some other) : (ledger.push role).role? var = some other :=
  role?_push.mpr (.inl found)

@[simp]
theorem role?_push_next (ledger : Ledger α) (role : Role α) :
    (ledger.push role).role? (ledger.size + 1) = some role :=
  role?_push.mpr (.inr ⟨rfl, rfl⟩)

theorem isSome_role?_push {ledger : Ledger α} {role : Role α} {var : Nat}
    (found : (ledger.role? var).isSome) : ((ledger.push role).role? var).isSome := by
  obtain ⟨other, found⟩ := Option.isSome_iff_exists.mp found
  exact Option.isSome_iff_exists.mpr ⟨other, role?_push_of_some found⟩

theorem derivations_push (ledger : Ledger α) (role : Role α) :
    (ledger.push role).derivations = ledger.derivations ++ role.derivation?.toList := by
  simp only [derivations, push, List.filterMap_append]
  cases role <;> rfl

/-- The variables that stand for bodies are those of the recorded derivations. -/
theorem mem_derivations {ledger : Ledger α} {head : Atom α} {body : List (BodyLiteral α)} :
    (head, body) ∈ ledger.derivations ↔
      ∃ var, ledger.role? var = some (.support head body) := by
  simp only [derivations, List.mem_filterMap]
  constructor
  · rintro ⟨role, member, same⟩
    obtain ⟨index, _, rfl⟩ := List.mem_iff_getElem.mp member
    refine ⟨index + 1, ?_⟩
    cases found : ledger.roles[index] <;> simp_all [Role.derivation?, role?]
  · rintro ⟨var, found⟩
    cases var with
    | zero => cases found
    | succ index => exact ⟨_, List.mem_of_getElem? found, rfl⟩

variable [DecidableEq α]

/-- The variables of the bodies of an atom, in order. -/
def supports (ledger : Ledger α) (atom : Atom α) : List Nat :=
  (ledger.roles.zipIdx 1).filterMap fun
    | (.support head _, var) => if head = atom then some var else none
    | _ => none

theorem supports_push (ledger : Ledger α) (role : Role α) (atom : Atom α) :
    (ledger.push role).supports atom =
      ledger.supports atom ++
        if role.derivation?.any (·.1 = atom) then [ledger.size + 1] else [] := by
  simp only [supports, push, List.zipIdx_append, List.filterMap_append, size]
  cases role with
  | support head body => by_cases same : head = atom <;> simp [Role.derivation?, same, Nat.add_comm]
  | _ => simp [Role.derivation?]

theorem mem_supports {ledger : Ledger α} {atom : Atom α} {var : Nat} :
    var ∈ ledger.supports atom ↔ ∃ body, ledger.role? var = some (.support atom body) := by
  simp only [supports, List.mem_filterMap, Prod.exists, List.mk_mem_zipIdx_iff_le_and_getElem?_sub]
  constructor
  · rintro ⟨role, index, ⟨positive, found⟩, same⟩
    cases role with
    | support head body =>
      simp only [Option.ite_none_right_eq_some, Option.some.injEq] at same
      obtain ⟨rfl, rfl⟩ := same
      obtain ⟨before, rfl⟩ : ∃ before, index = before + 1 := ⟨index - 1, by omega⟩
      exact ⟨body, found⟩
    | _ => simp at same
  · rintro ⟨body, found⟩
    cases var with
    | zero => cases found
    | succ index => exact ⟨_, index + 1, ⟨by omega, found⟩, by simp⟩

/-- A ledger with further variables that stand neither for bodies nor for completion clauses. -/
structure Continues (ledger later : Ledger α) : Prop where
  keeps : forall var role, ledger.role? var = some role -> later.role? var = some role
  derivations : later.derivations = ledger.derivations
  supports : forall atom, later.supports atom = ledger.supports atom
  completion : forall var atom, later.role? var = some (.completion atom) ->
    ledger.role? var = some (.completion atom)

/-- No further variable stands for a body. -/
theorem Continues.support_iff {ledger later : Ledger α} (continues : ledger.Continues later)
    {var : Nat} {head : Atom α} {body : List (BodyLiteral α)} :
    later.role? var = some (.support head body) ↔ ledger.role? var = some (.support head body) := by
  constructor
  · intro role
    have inside := mem_supports.mpr ⟨body, role⟩
    rw [continues.supports] at inside
    obtain ⟨original, before⟩ := mem_supports.mp inside
    have same := continues.keeps _ _ before
    rw [role, Option.some.injEq] at same
    exact same ▸ before
  · exact continues.keeps _ _

theorem Continues.refl (ledger : Ledger α) : ledger.Continues ledger :=
  ⟨fun _ _ found => found, rfl, fun _ => rfl, fun _ _ found => found⟩

theorem Continues.push (ledger : Ledger α) {role : Role α} (bodiless : role.derivation? = none)
    (unguarding : forall atom, role ≠ .completion atom) : ledger.Continues (ledger.push role) where
  keeps _ _ := role?_push_of_some
  derivations := by simp [derivations_push, bodiless]
  supports atom := by simp [supports_push, bodiless]
  completion var atom found := by
    rcases role?_push.mp found with before | ⟨_, same⟩
    · exact before
    · exact absurd same.symm (unguarding atom)

end Ledger

end Argumentation
