import Argumentation.Proofs.Session.Grounded

/-!
# Registering atoms

Atoms receive variables when a flag is declared or when a rule mentions them for the first time.
Both keep the grounding invariant and the variables that are known already (`Session.Grows`), so the
literals of a body are those of the session in which all its atoms are known.
-/

namespace Argumentation.Session

open Argumentation.Sat (Literal Clause)

variable {α : Type} [DecidableEq α]

/-- A later session that knows the same variables, and maybe more. -/
structure Grows (session other : Session α) : Prop where
  known : forall atom var, session.varOf? atom = some var -> other.varOf? atom = some var
  flags : other.flags = session.flags
  batches : other.batches = session.batches

theorem Grows.refl (session : Session α) : session.Grows session :=
  ⟨fun _ _ known => known, rfl, rfl⟩

theorem Grows.trans {first second third : Session α} (early : first.Grows second)
    (late : second.Grows third) : first.Grows third where
  known atom var found := late.known atom var (early.known atom var found)
  flags := late.flags.trans early.flags
  batches := late.batches.trans early.batches

theorem Grows.isSome {session other : Session α} (grows : session.Grows other) {atom : Atom α}
    (known : (session.varOf? atom).isSome) : (other.varOf? atom).isSome := by
  obtain ⟨var, found⟩ := Option.isSome_iff_exists.mp known
  exact Option.isSome_iff_exists.mpr ⟨var, grows.known atom var found⟩

theorem Grows.varOf?_eq {session other : Session α} (grows : session.Grows other) {atom : Atom α}
    (known : (session.varOf? atom).isSome) : other.varOf? atom = session.varOf? atom := by
  obtain ⟨var, found⟩ := Option.isSome_iff_exists.mp known
  rw [found, grows.known atom var found]

omit [DecidableEq α] in
/-- One more atom is numbered. -/
theorem Numbered.insert {ledger : Ledger α} {session other : Session α}
    (numbered : session.Numbered ledger) {atom : Atom α}
    (count : other.variableCount = session.variableCount + 1)
    (table : other.table.Perm ((atom, session.variableCount + 1) :: session.table))
    (atoms : (other.atomVars.map Prod.fst).Nodup)
    (plain : forall atom var, (atom, var) ∈ other.atomVars -> atom.isStructural = false) :
    other.Numbered (ledger.push (.atom atom)) where
  count := by rw [count, numbered.count, Ledger.size_push]
  role name var member := by
    rcases List.mem_cons.mp (table.mem_iff.mp member) with new | old
    · obtain ⟨rfl, rfl⟩ := Prod.mk.injEq _ _ _ _ ▸ new
      exact numbered.role?_next _
    · exact Ledger.role?_push_of_some (numbered.role name var old)
  vars := by
    rw [(table.map Prod.snd).nodup_iff, List.map_cons, List.nodup_cons]
    exact ⟨numbered.next_not_mem, numbered.vars⟩
  atoms := atoms
  plain := plain

/-- An element that no rule mentions may be given a flag, or one more. -/
theorem Grounded.declareFlag {ledger : Ledger α} {rules : List (Rule α)}
    {pending : List (Atom α)} {session : Session α}
    (grounded : session.Grounded ledger rules pending) {element : Element α}
    (new : ¬ Mentions rules element.flagAtom) :
    (session.declareFlag element).Grounded (ledger.push (.atom element.flagAtom)) rules
      pending := by
  have numbered : (session.declareFlag element).Numbered (ledger.push (.atom element.flagAtom)) :=
    grounded.toNumbered.insert rfl (.refl _) grounded.atoms grounded.plain
  refine grounded.enlarge (.push ledger rfl (by simp)) numbered []
    ⟨fun atom mentions => ?_, by simp [Session.declareFlag, fresh], by simp,
      fun _ waits => waits, rfl, rfl, rfl⟩
  have other : element.flagAtom ≠ atom := fun same => new (same ▸ mentions)
  simp [varOf?, Session.declareFlag, fresh, other, derived?]

/-- An atom that the session has not seen goes to the end of the table. -/
theorem table_atomVariable {session : Session α} {atom : Atom α}
    (unknown : session.varOf? atom = none) :
    (session.atomVariable atom).2.table =
      session.table ++ [(atom, session.variableCount + 1)] := by
  simp [atomVariable, unknown, fresh, table, flagVars, atomVars]

theorem grows_atomVariable (session : Session α) (atom : Atom α) :
    session.Grows (session.atomVariable atom).2 := by
  cases found : session.varOf? atom with
  | some var =>
    simp only [atomVariable, found]
    exact .refl session
  | none =>
    refine ⟨fun other var known => ?_, by simp [atomVariable, found, fresh],
      by simp [atomVariable, found, fresh]⟩
    rw [varOf?_eq] at known ⊢
    obtain ⟨entry, listed, rfl⟩ := Option.map_eq_some_iff.mp known
    simp [table_atomVariable found, List.find?_append, listed]

/-- The variable handed out for an atom is the one it has from then on. -/
theorem varOf?_atomVariable (session : Session α) (atom : Atom α) :
    (session.atomVariable atom).2.varOf? atom = some (session.atomVariable atom).1 := by
  cases found : session.varOf? atom with
  | some var => simp [atomVariable, found]
  | none =>
    have absent := found
    rw [varOf?_eq, Option.map_eq_none_iff] at absent
    rw [varOf?_eq, table_atomVariable found]
    simp [List.find?_append, absent, atomVariable, found, fresh]

/-- An atom that the session has not seen gets the next variable. -/
theorem Numbered.atomVariable {ledger : Ledger α} {session : Session α}
    (numbered : session.Numbered ledger) {atom : Atom α} (unknown : session.varOf? atom = none)
    (plain : atom.isStructural = false) :
    (session.atomVariable atom).2.Numbered (ledger.push (.atom atom)) := by
  have absent := notMem_atomVars unknown
  have atomVars : (session.atomVariable atom).2.atomVars =
      session.atomVars ++ [(atom, session.variableCount + 1)] := by
    simp [Session.atomVariable, unknown, Session.fresh, Session.atomVars]
  refine numbered.insert (by simp [Session.atomVariable, unknown, Session.fresh]) ?_ ?_ ?_
  · rw [table_atomVariable unknown]
    exact List.perm_append_singleton _ _
  · rw [atomVars, List.map_append, List.nodup_append]
    refine ⟨numbered.atoms, by simp, fun name member other single same => absent ?_⟩
    rw [List.map_singleton, List.mem_singleton] at single
    rwa [same, single] at member
  · intro name var member
    rw [atomVars, List.mem_append, List.mem_singleton] at member
    rcases member with before | new
    · exact numbered.plain name var before
    · simpa [(Prod.mk.inj new).1] using plain

/-- An atom may be registered unless it is a structural one that no flag declares. -/
theorem Grounded.atomVariable {ledger : Ledger α} {rules : List (Rule α)} {session : Session α}
    (grounded : session.Grounded ledger rules session.stale) {atom : Atom α}
    (declared : atom.isStructural = true -> (session.varOf? atom).isSome) :
    ∃ later, (session.atomVariable atom).2.Grounded later rules
      (session.atomVariable atom).2.stale := by
  cases found : session.varOf? atom with
  | some var =>
    simp only [Session.atomVariable, found]
    exact ⟨ledger, grounded⟩
  | none =>
    have plain : atom.isStructural = false := by
      simpa [found] using declared
    have grows := session.grows_atomVariable atom
    refine ⟨_, grounded.enlarge (.push ledger rfl (by simp))
      (grounded.toNumbered.atomVariable found plain) [{ atom, var := session.variableCount + 1 }]
      ⟨fun name mentions => ?_, by simp [Session.atomVariable, found, fresh], ?_, ?_, ?_, ?_, ?_⟩⟩
    · exact grows.varOf?_eq (grounded.toRecorded.isSome_varOf? mentions)
    · simp [Session.atomVariable, found, fresh]
    · intro name waits
      simp [Session.atomVariable, found, fresh, waits]
    · simp [Session.atomVariable, found, fresh, sent]
    · simp [Session.atomVariable, found, fresh]
    · simp [Session.atomVariable, found, fresh]

/-- The literal of a body literal is the one it has in every later session. -/
theorem Grows.literal {session other : Session α} (grows : session.Grows other)
    {literal : BodyLiteral α} (known : (session.varOf? literal.atom).isSome) :
    other.literal literal = session.literal literal :=
  literal_congr (grows.varOf?_eq known)

theorem bodyLiteral_snd (session : Session α) (literal : BodyLiteral α) :
    (session.bodyLiteral literal).2 = (session.atomVariable literal.atom).2 := by
  cases literal <;> rfl

/-- The literal handed out for a body literal is its literal from then on. -/
theorem literal_bodyLiteral (session : Session α) (literal : BodyLiteral α) :
    (session.bodyLiteral literal).2.literal literal = (session.bodyLiteral literal).1 := by
  cases literal with
  | holds atom | fails atom =>
    have found := session.varOf?_atomVariable atom
    simp [bodyLiteral, Session.literal, number_of_varOf? found]

theorem grows_bodyLiteral (session : Session α) (literal : BodyLiteral α) :
    session.Grows (session.bodyLiteral literal).2 := by
  rw [bodyLiteral_snd]
  exact session.grows_atomVariable literal.atom

theorem isSome_bodyLiteral (session : Session α) (literal : BodyLiteral α) :
    ((session.bodyLiteral literal).2.varOf? literal.atom).isSome := by
  rw [bodyLiteral_snd, varOf?_atomVariable]
  rfl

theorem grows_bodyLiterals (session : Session α) (body : List (BodyLiteral α)) :
    session.Grows (session.bodyLiterals body).2 := by
  induction body generalizing session with
  | nil => exact .refl session
  | cons literal rest ih => exact (session.grows_bodyLiteral literal).trans (ih _)

/-- The atoms of a body are known once its literals were handed out. -/
theorem isSome_bodyLiterals (session : Session α) (body : List (BodyLiteral α))
    (literal : BodyLiteral α) (member : literal ∈ body) :
    ((session.bodyLiterals body).2.varOf? literal.atom).isSome := by
  induction body generalizing session with
  | nil => simp at member
  | cons first rest ih =>
    rcases List.mem_cons.mp member with rfl | later
    · exact (grows_bodyLiterals _ rest).isSome (session.isSome_bodyLiteral literal)
    · exact ih _ later

/-- The literals handed out for a body are those of the session that knows all its atoms. -/
theorem bodyLiterals_fst (session : Session α) (body : List (BodyLiteral α)) :
    (session.bodyLiterals body).1 = body.map (session.bodyLiterals body).2.literal := by
  induction body generalizing session with
  | nil => rfl
  | cons literal rest ih =>
    have first := (grows_bodyLiterals (session.bodyLiteral literal).2 rest).literal
      (session.isSome_bodyLiteral literal)
    rw [literal_bodyLiteral] at first
    simp only [bodyLiterals, List.map_cons, first]
    rw [ih]

theorem Grounded.bodyLiterals {ledger : Ledger α} {rules : List (Rule α)} {session : Session α}
    (grounded : session.Grounded ledger rules session.stale) {body : List (BodyLiteral α)}
    (declared : forall literal, literal ∈ body -> literal.atom.isStructural = true ->
      (session.varOf? literal.atom).isSome) :
    ∃ later, (session.bodyLiterals body).2.Grounded later rules
      (session.bodyLiterals body).2.stale := by
  induction body generalizing session ledger with
  | nil => exact ⟨ledger, grounded⟩
  | cons literal rest ih =>
    obtain ⟨later, registered⟩ := grounded.atomVariable (declared literal List.mem_cons_self)
    rw [← bodyLiteral_snd] at registered
    refine ih registered fun other member structural => ?_
    exact (session.grows_bodyLiteral literal).isSome
      (declared other (List.mem_cons_of_mem literal member) structural)

end Argumentation.Session
