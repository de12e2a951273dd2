import Argumentation.Session.Grounding
import Argumentation.Proofs.Program.Completion
import Argumentation.Proofs.Session.Ledger
import Mathlib.Data.List.Nodup

/-!
# Numbering

The variables that a session hands out to atoms. `Session.table` lists them, and
`Session.varOf?_eq` says that the variable of an atom is the one that the table gives first. In a
numbered session the table and the ledger agree, so distinct atoms have distinct variables.
-/

namespace Argumentation

variable {α : Type}

namespace Session

open Argumentation.Sat (Literal)

/-- The structural atoms with the variables of their flags, the newest flag first. -/
def flagVars (session : Session α) : List (Atom α × Nat) :=
  session.flags.map fun flag => (flag.element.flagAtom, flag.var)

/-- The derived atoms with their variables. -/
def atomVars (session : Session α) : List (Atom α × Nat) :=
  session.derived.map fun entry => (entry.atom, entry.var)

/-- All the atoms with their variables. -/
def table (session : Session α) : List (Atom α × Nat) :=
  session.flagVars ++ session.atomVars

/-- The ledger knows the variables that a session uses, and the table names each of them once. -/
structure Numbered (ledger : Ledger α) (session : Session α) : Prop where
  count : session.variableCount = ledger.size
  role : forall atom var, (atom, var) ∈ session.table -> ledger.role? var = some (.atom atom)
  vars : (session.table.map Prod.snd).Nodup
  atoms : (session.atomVars.map Prod.fst).Nodup
  plain : forall atom var, (atom, var) ∈ session.atomVars -> atom.isStructural = false

/-- Only the numbers of a session matter. -/
theorem Numbered.congr {ledger : Ledger α} {session other : Session α}
    (numbered : session.Numbered ledger)
    (variableCount : other.variableCount = session.variableCount)
    (flagVars : other.flagVars = session.flagVars) (atomVars : other.atomVars = session.atomVars) :
    other.Numbered ledger where
  count := variableCount.trans numbered.count
  role := by simpa only [table, flagVars, atomVars] using numbered.role
  vars := by simpa only [table, flagVars, atomVars] using numbered.vars
  atoms := by simpa only [atomVars] using numbered.atoms
  plain := by simpa only [atomVars] using numbered.plain

/-- The next variable gets the next role. -/
theorem Numbered.role?_next {ledger : Ledger α} {session : Session α}
    (numbered : session.Numbered ledger) (role : Role α) :
    (ledger.push role).role? (session.variableCount + 1) = some role := by
  rw [numbered.count, Ledger.role?_push_next]

theorem Numbered.empty : (empty : Session α).Numbered {} where
  count := rfl
  role := by simp [Session.empty, table, flagVars, atomVars]
  vars := by simp [Session.empty, table, flagVars, atomVars]
  atoms := by simp [Session.empty, atomVars]
  plain := by simp [Session.empty, atomVars]

/-- A variable may be used for something else than an atom. -/
theorem Numbered.fresh {ledger : Ledger α} {session : Session α}
    (numbered : session.Numbered ledger) (role : Role α) :
    session.fresh.2.Numbered (ledger.push role) where
  count := by simp [Session.fresh, numbered.count]
  role atom var member := Ledger.role?_push_of_some (numbered.role atom var member)
  vars := numbered.vars
  atoms := numbered.atoms
  plain := numbered.plain

/-- The next variable is not in the table. -/
theorem Numbered.next_not_mem {ledger : Ledger α} {session : Session α}
    (numbered : session.Numbered ledger) :
    session.variableCount + 1 ∉ session.table.map Prod.snd := by
  intro member
  obtain ⟨⟨atom, var⟩, listed, same⟩ := List.mem_map.mp member
  have bounds := Ledger.bounds (numbered.role atom var listed)
  have count := numbered.count
  simp only at same
  omega

variable [DecidableEq α]

/-- The variable of an atom is the one that the table gives first. -/
theorem varOf?_eq (session : Session α) (atom : Atom α) :
    session.varOf? atom = (session.table.find? fun entry => entry.1 = atom).map Prod.snd := by
  simp only [varOf?, derived?, table, flagVars, atomVars, List.find?_append, List.find?_map,
    Function.comp_def]
  cases session.flags.find? fun flag => flag.element.flagAtom = atom <;>
    simp [Function.comp_def]

theorem varOf?_congr {session other : Session α} (flagVars : other.flagVars = session.flagVars)
    (atomVars : other.atomVars = session.atomVars) (atom : Atom α) :
    other.varOf? atom = session.varOf? atom := by
  simp only [varOf?_eq, table, flagVars, atomVars]

theorem mem_table_of_varOf? {session : Session α} {atom : Atom α} {var : Nat}
    (found : session.varOf? atom = some var) : (atom, var) ∈ session.table := by
  rw [varOf?_eq] at found
  obtain ⟨⟨other, index⟩, listed, rfl⟩ := Option.map_eq_some_iff.mp found
  have same := List.find?_some listed
  simp only [decide_eq_true_eq] at same
  exact same ▸ List.mem_of_find?_eq_some listed

theorem isSome_varOf?_iff {session : Session α} {atom : Atom α} :
    (session.varOf? atom).isSome ↔ ∃ var, (atom, var) ∈ session.table := by
  constructor
  · intro known
    obtain ⟨var, found⟩ := Option.isSome_iff_exists.mp known
    exact ⟨var, mem_table_of_varOf? found⟩
  · rintro ⟨var, member⟩
    rw [varOf?_eq, Option.isSome_map, List.find?_isSome]
    exact ⟨(atom, var), member, by simp⟩

/-- An atom without a variable has no entry. -/
theorem notMem_atomVars {session : Session α} {atom : Atom α}
    (unknown : session.varOf? atom = none) : atom ∉ session.atomVars.map Prod.fst := by
  intro member
  obtain ⟨⟨other, var⟩, listed, rfl⟩ := List.mem_map.mp member
  have known := isSome_varOf?_iff.mpr ⟨var, List.mem_append_right session.flagVars listed⟩
  simp [unknown] at known

/-- The variable of a known atom has the atom as its role. -/
theorem Numbered.role_of_varOf? {ledger : Ledger α} {session : Session α}
    (numbered : session.Numbered ledger) {atom : Atom α} {var : Nat}
    (found : session.varOf? atom = some var) : ledger.role? var = some (.atom atom) :=
  numbered.role atom var (mem_table_of_varOf? found)

/-- Derived atoms are looked up in the table of derived atoms alone. -/
theorem varOf?_of_plain (session : Session α) {atom : Atom α} (plain : atom.isStructural = false) :
    session.varOf? atom = (session.derived? atom).map Derived.var := by
  have absent : session.flags.find? (fun flag => flag.element.flagAtom = atom) = none := by
    rw [List.find?_eq_none]
    intro flag _ same
    simp only [decide_eq_true_eq] at same
    simp [← same] at plain
  simp only [varOf?, absent]

/-- What a session knows of an atom is its only entry for it. -/
theorem Numbered.derived?_eq_some {ledger : Ledger α} {session : Session α}
    (numbered : session.Numbered ledger) {atom : Atom α} {entry : Derived α} :
    session.derived? atom = some entry ↔ entry ∈ session.derived ∧ entry.atom = atom := by
  constructor
  · intro found
    have same := List.find?_some found
    exact ⟨List.mem_of_find?_eq_some found, by simpa using same⟩
  · rintro ⟨member, rfl⟩
    have distinct : (session.derived.map Derived.atom).Nodup := by
      simpa [atomVars, Function.comp_def] using numbered.atoms
    obtain ⟨other, found⟩ : ∃ other, session.derived? entry.atom = some other := by
      rw [← Option.isSome_iff_exists, derived?, List.find?_isSome]
      exact ⟨entry, member, by simp⟩
    have same := List.find?_some found
    simp only [decide_eq_true_eq] at same
    rwa [List.inj_on_of_nodup_map distinct (List.mem_of_find?_eq_some found) member same] at found

theorem Numbered.varOf?_derived {ledger : Ledger α} {session : Session α}
    (numbered : session.Numbered ledger) {entry : Derived α} (member : entry ∈ session.derived) :
    session.varOf? entry.atom = some entry.var := by
  have plain := numbered.plain entry.atom entry.var (List.mem_map.mpr ⟨entry, member, rfl⟩)
  rw [varOf?_of_plain session plain, numbered.derived?_eq_some.mpr ⟨member, rfl⟩]
  rfl

/-- A structural atom has the variable of the newest flag of its element. -/
theorem Numbered.varOf?_flagAtom {ledger : Ledger α} {session : Session α}
    (numbered : session.Numbered ledger) (element : Element α) :
    session.varOf? element.flagAtom = (session.flag? element).map Flag.var := by
  have absent : session.derived? element.flagAtom = none := by
    rw [derived?, List.find?_eq_none]
    intro entry member same
    simp only [decide_eq_true_eq] at same
    have plain := numbered.plain entry.atom entry.var (List.mem_map.mpr ⟨entry, member, rfl⟩)
    simp [same] at plain
  simp only [varOf?, flag?, Element.flagAtom_inj, absent]
  cases session.flags.find? fun flag => flag.element = element <;> rfl

/-- The variable of an atom, zero when it has none. -/
def number (session : Session α) (atom : Atom α) : Nat :=
  (session.varOf? atom).getD 0

theorem number_of_varOf? {session : Session α} {atom : Atom α} {var : Nat}
    (found : session.varOf? atom = some var) : session.number atom = var := by
  simp [number, found]

theorem number_congr {session other : Session α} {atom : Atom α}
    (agree : other.varOf? atom = session.varOf? atom) :
    other.number atom = session.number atom := by
  simp only [number, agree]

/-- The literal of a body literal whose atom is known. -/
def literal (session : Session α) : BodyLiteral α -> Literal
  | .holds atom => .pos (session.number atom)
  | .fails atom => .neg (session.number atom)

theorem literal_congr {session other : Session α} {literal : BodyLiteral α}
    (agree : other.varOf? literal.atom = session.varOf? literal.atom) :
    other.literal literal = session.literal literal := by
  cases literal <;> simp_all [Session.literal, number, BodyLiteral.atom]

@[simp]
theorem var_literal (session : Session α) (literal : BodyLiteral α) :
    (session.literal literal).var = session.number literal.atom := by
  cases literal <;> rfl

end Session

end Argumentation
