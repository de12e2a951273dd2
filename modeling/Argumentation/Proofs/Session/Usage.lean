import Argumentation.Proofs.Session.Traffic

/-!
# Variables in use

Every variable that a session draws is put to one use: it belongs to a flag or to a derived atom, it
stands for a body, or it is a selector. `Session.uses` lists the variables by their use. What a
session does adds to this list the variables that it draws, and takes selectors out of use
(`Session.Advances`). Grounding a rule only draws variables, none of them as a selector
(`Session.Draws`).
-/

namespace Argumentation.Session

open Argumentation.Sat (Literal Clause Engine)

variable {α : Type}

/-- The current selectors of the derived atoms. -/
def currents (session : Session α) : List Nat :=
  session.derived.filterMap Derived.selector

/-- The variables of the flags and of the derived atoms, those that stand for bodies, and the
current selectors. -/
def uses (session : Session α) : List Nat :=
  session.flags.map Flag.var ++ session.derived.map Derived.var
    ++ session.derived.flatMap Derived.bodies ++ session.currents

/-- A later session: the variables drawn since then are in use, except for some that are out of use
for good, like the current selectors that were replaced. -/
structure Advances (session other : Session α) (gone : List Nat) : Prop where
  balance : (other.uses ++ gone ++ List.range' 1 session.variableCount).Perm
    (session.uses ++ List.range' 1 other.variableCount)
  kept : forall selector, selector ∈ session.currents ->
    selector ∈ other.currents ∨ selector ∈ gone
  sent : session.sent ⊆ other.sent
  excluded : forall selector, selector ∈ gone -> [.neg selector] ∈ other.sent

namespace Advances

variable {session other third : Session α} {gone further past : List Nat}

/-- The balance when one variable is drawn. -/
theorem balance_next
    (uses : (other.uses ++ gone).Perm (session.uses ++ [session.variableCount + 1]))
    (variableCount : other.variableCount = session.variableCount + 1) :
    (other.uses ++ gone ++ List.range' 1 session.variableCount).Perm
      (session.uses ++ List.range' 1 other.variableCount) := by
  rw [variableCount, List.range'_1_concat, Nat.add_comm 1]
  refine (uses.append_right _).trans ?_
  rw [List.append_assoc]
  exact List.perm_append_comm.append_left session.uses

theorem trans (early : session.Advances other gone)
    (late : other.Advances third further) : session.Advances third (gone ++ further) where
  balance := List.perm_iff_count.mpr fun var => by
    have first := List.perm_iff_count.mp early.balance var
    have second := List.perm_iff_count.mp late.balance var
    simp only [List.count_append] at first second ⊢
    omega
  kept selector member := by
    rcases early.kept selector member with between | left
    · exact (late.kept selector between).imp_right (List.mem_append_right gone)
    · exact .inr (List.mem_append_left _ left)
  sent := List.Subset.trans early.sent late.sent
  excluded selector member := by
    rcases List.mem_append.mp member with left | left
    · exact late.sent (early.excluded selector left)
    · exact late.excluded selector left

/-- The order in which selectors go out of use does not matter. -/
theorem perm (advances : session.Advances other gone) (same : gone.Perm further) :
    session.Advances other further where
  balance := (((same.append_left other.uses).append_right _).symm).trans advances.balance
  kept selector member := (advances.kept selector member).imp_right same.mem_iff.mp
  sent := advances.sent
  excluded selector member := advances.excluded selector (same.mem_iff.mpr member)

/-- When the variables in use and those out of use are all the variables up to the count, this
remains so. -/
theorem partition (advances : session.Advances other gone)
    (whole : (session.uses ++ past).Perm (List.range' 1 session.variableCount)) :
    (other.uses ++ (past ++ gone)).Perm (List.range' 1 other.variableCount) :=
  List.perm_iff_count.mpr fun var => by
    have first := List.perm_iff_count.mp advances.balance var
    have second := List.perm_iff_count.mp whole var
    simp only [List.count_append] at first second ⊢
    omega

/-- The selectors that go out of use are the current ones that are current no longer. -/
theorem perm_filter (advances : session.Advances other gone)
    (whole : (session.uses ++ past).Perm (List.range' 1 session.variableCount))
    (former : gone ⊆ session.currents) :
    gone.Perm (session.currents.filter fun selector => selector ∉ other.currents) := by
  have before : (session.uses ++ past).Nodup := whole.nodup_iff.mpr List.nodup_range'
  have after : (other.uses ++ (past ++ gone)).Nodup :=
    (advances.partition whole).nodup_iff.mpr List.nodup_range'
  obtain ⟨_, left, apart⟩ := List.nodup_append.mp after
  have currents : session.currents.Nodup :=
    (List.nodup_append.mp (List.nodup_append.mp before).1).2.1
  refine (List.perm_ext_iff_of_nodup (List.nodup_append.mp left).2.1 (currents.filter _)).mpr
    fun selector => ?_
  simp only [List.mem_filter, decide_eq_true_eq]
  constructor
  · intro member
    refine ⟨former member, fun again => ?_⟩
    exact apart selector (List.mem_append_right _ again) selector (List.mem_append_right _ member)
      rfl
  · rintro ⟨member, replaced⟩
    exact (advances.kept selector member).resolve_left replaced

end Advances

/-- A later session in which the variables drawn since then are in use, none of them as a current
selector, and no calls have been made. -/
structure Draws (session other : Session α) : Prop extends Advances session other [] where
  count : session.variableCount <= other.variableCount
  currents : other.currents = session.currents
  calls : other.journal.calls = session.journal.calls

namespace Draws

variable {session other third : Session α}

theorem trans (early : session.Draws other) (late : other.Draws third) : session.Draws third where
  toAdvances := early.toAdvances.trans late.toAdvances
  count := early.count.trans late.count
  currents := late.currents.trans early.currents
  calls := late.calls.trans early.calls

/-- Nothing is drawn. -/
theorem of_frame (flags : other.flags.map Flag.var = session.flags.map Flag.var)
    (derived : other.derived = session.derived)
    (variableCount : other.variableCount = session.variableCount)
    (sent : session.sent ⊆ other.sent) (calls : other.journal.calls = session.journal.calls) :
    session.Draws other where
  balance := by simp [uses, Session.currents, flags, derived, variableCount]
  kept _ member := .inl (by simpa [Session.currents, derived] using member)
  sent := sent
  excluded := by simp
  count := variableCount.ge
  currents := by simp [Session.currents, derived]
  calls := calls

/-- The next variable is drawn. -/
theorem next (uses : other.uses.Perm (session.uses ++ [session.variableCount + 1]))
    (currents : other.currents = session.currents)
    (variableCount : other.variableCount = session.variableCount + 1)
    (sent : session.sent ⊆ other.sent) (calls : other.journal.calls = session.journal.calls) :
    session.Draws other where
  balance := Advances.balance_next (by simpa using uses) variableCount
  kept _ member := .inl (currents ▸ member)
  sent := sent
  excluded := by simp
  count := by omega
  currents := currents
  calls := calls

theorem refl (session : Session α) : session.Draws session :=
  of_frame rfl rfl rfl (List.Subset.refl _) rfl

end Draws

theorem draws_send (session : Session α) (clause : Clause) : session.Draws (session.send clause) :=
  .of_frame rfl rfl rfl (by simp) (calls_send session clause)

theorem draws_declareFlag (session : Session α) (element : Element α) :
    session.Draws (session.declareFlag element) := by
  refine .next (List.perm_iff_count.mpr fun var => ?_) rfl rfl (List.Subset.refl _) rfl
  simp only [declareFlag, fresh, uses, currents, List.map_cons, List.count_append, List.count_cons,
    List.count_nil]
  omega

theorem draws_declareFlags (session : Session α) (element : Element α)
    (declarations : List (Rule α)) :
    session.Draws (session.declareFlags element declarations) := by
  induction declarations generalizing session with
  | nil => exact .refl session
  | cons declaration rest ih => exact (session.draws_declareFlag element).trans (ih _)

/-- Declarations change neither the derived atoms nor what was sent. -/
theorem frame_declareFlags (session : Session α) (element : Element α)
    (declarations : List (Rule α)) :
    (session.declareFlags element declarations).derived = session.derived ∧
      (session.declareFlags element declarations).journal = session.journal := by
  induction declarations generalizing session with
  | nil => exact ⟨rfl, rfl⟩
  | cons declaration rest ih => exact ih _

/-- Making a label visible changes neither the derived atoms nor what was sent or drawn. -/
theorem frame_display (session : Session α) (atom : Atom α) (var : Nat) :
    (session.display atom var).derived = session.derived ∧
      (session.display atom var).journal = session.journal ∧
      (session.display atom var).variableCount = session.variableCount := by
  cases atom with
  | inside label =>
    simp only [display]
    split <;> exact ⟨rfl, rfl, rfl⟩
  | _ => exact ⟨rfl, rfl, rfl⟩

theorem draws_display (session : Session α) (atom : Atom α) (var : Nat) :
    session.Draws (session.display atom var) := by
  cases atom with
  | inside label =>
    simp only [display]
    split
    · exact .refl session
    · exact .of_frame rfl rfl rfl (List.Subset.refl _) rfl
  | _ => exact .refl session

theorem map_fst_atomVars (session : Session α) :
    session.atomVars.map Prod.fst = session.derived.map Derived.atom := by
  simp [atomVars]

variable [DecidableEq α]

theorem isSome_derived?_iff {session : Session α} {atom : Atom α} :
    (session.derived? atom).isSome ↔ atom ∈ session.atomVars.map Prod.fst := by
  simp [derived?, List.find?_isSome, map_fst_atomVars]

/-- The entry of an atom stands between entries of other atoms. -/
theorem exists_split {session : Session α} {atom : Atom α} {entry : Derived α}
    (distinct : (session.atomVars.map Prod.fst).Nodup)
    (found : session.derived? atom = some entry) :
    ∃ before after, session.derived = before ++ entry :: after ∧
      forall change : Derived α -> Derived α,
        (session.derived.map fun other => if other.atom = atom then change other else other) =
          before ++ change entry :: after := by
  obtain ⟨own, before, after, shape, apart⟩ := List.find?_eq_some_iff_append.mp found
  simp only [decide_eq_true_eq, Bool.not_eq_true', decide_eq_false_iff_not] at own apart
  subst own
  refine ⟨before, after, shape, fun change => ?_⟩
  rw [map_fst_atomVars, shape, List.map_append, List.map_cons] at distinct
  have later : forall other, other ∈ after -> other.atom ≠ entry.atom := fun other member same =>
    (List.nodup_cons.mp (List.nodup_append.mp distinct).2.1).1
      (same ▸ List.mem_map_of_mem member)
  have kept : forall others : List (Derived α),
      (forall other, other ∈ others -> other.atom ≠ entry.atom) ->
        (others.map fun other => if other.atom = entry.atom then change other else other) =
          others := fun others different =>
    (List.map_congr_left fun other member => if_neg (different other member)).trans
      (List.map_id _)
  rw [shape, List.map_append, List.map_cons, if_pos rfl, kept before apart, kept after later]

section Rules

theorem draws_atomVariable (session : Session α) (atom : Atom α) :
    session.Draws (session.atomVariable atom).2 := by
  cases found : session.varOf? atom with
  | some var =>
    simp only [atomVariable, found]
    exact .refl session
  | none =>
    refine .next (List.perm_iff_count.mpr fun var => ?_) ?_ ?_ ?_ ?_
    · simp only [atomVariable, found, fresh, uses, currents, List.map_append, List.map_cons,
        List.map_nil, List.flatMap_append, List.flatMap_cons, List.flatMap_nil,
        List.filterMap_append, List.filterMap_cons, List.filterMap_nil, List.count_append,
        List.count_nil]
      omega
    · simp [atomVariable, found, fresh, currents]
    · simp [atomVariable, found, fresh]
    · simp [atomVariable, found, fresh, sent]
    · simp [atomVariable, found, fresh]

theorem draws_bodyLiterals (session : Session α) (body : List (BodyLiteral α)) :
    session.Draws (session.bodyLiterals body).2 := by
  induction body generalizing session with
  | nil => exact .refl session
  | cons literal rest ih =>
    have first := session.draws_atomVariable literal.atom
    rw [← bodyLiteral_snd] at first
    exact first.trans (ih _)

theorem draws_derive {session : Session α} {head : Atom α} {entry : Derived α}
    (distinct : (session.atomVars.map Prod.fst).Nodup)
    (found : session.derived? head = some entry) (body : List (BodyLiteral α)) :
    session.Draws (session.derive head body) := by
  obtain ⟨before, after, shape, changed⟩ := exists_split distinct found
  have flags : (session.derive head body).flags = session.flags := by
    simp [derive, addBody, send, sendAll_eq, fresh]
  refine .next (List.perm_iff_count.mpr fun var => ?_) ?_ ?_ ?_ ?_
  · rw [uses, currents, flags, derived_derive, changed, uses, currents, shape]
    simp only [List.map_append, List.map_cons, List.flatMap_append, List.flatMap_cons,
      List.filterMap_append, List.filterMap_cons, List.count_append]
    omega
  · rw [currents, derived_derive, changed, currents, shape]
    simp only [List.filterMap_append, List.filterMap_cons]
  · simp [derive, addBody, send, sendAll_eq, fresh]
  · simp [sent_derive]
  · simp [derive, addBody, send, sendAll_eq, fresh, Journal.calls]

/-- Derived atoms have one entry each, and those that wait for a completion clause wait once. -/
structure Tidy (session : Session α) : Prop where
  distinct : (session.atomVars.map Prod.fst).Nodup
  stale : session.stale.Nodup
  waits : forall atom, atom ∈ session.stale -> atom ∈ session.atomVars.map Prod.fst

omit [DecidableEq α] in
theorem Tidy.congr {session other : Session α} (tidy : session.Tidy)
    (derived : other.derived = session.derived) (stale : other.stale = session.stale) :
    other.Tidy where
  distinct := by simpa [map_fst_atomVars, derived] using tidy.distinct
  stale := stale ▸ tidy.stale
  waits atom member := by
    have waits := tidy.waits atom (stale ▸ member)
    simpa [map_fst_atomVars, derived] using waits

theorem Tidy.atomVariable {session : Session α} (tidy : session.Tidy) (atom : Atom α) :
    (session.atomVariable atom).2.Tidy := by
  cases found : session.varOf? atom with
  | some var =>
    simp only [Session.atomVariable, found]
    exact tidy
  | none =>
    have absent := notMem_atomVars found
    have atoms : (session.atomVariable atom).2.atomVars.map Prod.fst =
        session.atomVars.map Prod.fst ++ [atom] := by
      simp [Session.atomVariable, found, fresh, map_fst_atomVars]
    have stale : (session.atomVariable atom).2.stale = session.stale ++ [atom] := by
      simp [Session.atomVariable, found, fresh]
    refine ⟨?_, ?_, fun other member => ?_⟩
    · rw [atoms]
      exact tidy.distinct.append (List.nodup_singleton atom) (by simpa using absent)
    · rw [stale]
      exact tidy.stale.append (List.nodup_singleton atom)
        (by simpa using fun waits => absent (tidy.waits atom waits))
    · rw [stale] at member
      rw [atoms]
      exact (List.mem_append.mp member).elim (fun old => List.mem_append_left _ (tidy.waits _ old))
        (List.mem_append_right _)

theorem Tidy.bodyLiterals {session : Session α} (tidy : session.Tidy)
    (body : List (BodyLiteral α)) : (session.bodyLiterals body).2.Tidy := by
  induction body generalizing session with
  | nil => exact tidy
  | cons literal rest ih =>
    have first := tidy.atomVariable literal.atom
    rw [← bodyLiteral_snd] at first
    exact ih first

theorem Tidy.derive {session : Session α} (tidy : session.Tidy) {head : Atom α}
    (known : head ∈ session.atomVars.map Prod.fst) (body : List (BodyLiteral α)) :
    (session.derive head body).Tidy where
  distinct := atomVars_derive session head body ▸ tidy.distinct
  stale := by
    simp only [Session.derive, addBody, send, sendAll_eq, fresh]
    split
    · exact tidy.stale
    · exact tidy.stale.append (List.nodup_singleton head) (by simpa)
  waits atom member := by
    rw [atomVars_derive]
    rcases mem_stale_derive.mp member with old | rfl
    · exact tidy.waits atom old
    · exact known

/-- Grounding a rule puts the variables that it draws to a use. -/
theorem Tidy.groundRule {session : Session α} (tidy : session.Tidy) (rule : Rule α)
    (plain : forall head body, rule = .derive head body -> head.isStructural = false) :
    (session.groundRule rule).Tidy ∧ session.Draws (session.groundRule rule) := by
  cases rule with
  | external atom => exact ⟨tidy, .refl session⟩
  | declare atom => exact ⟨tidy.atomVariable atom, session.draws_atomVariable atom⟩
  | display atom =>
    exact ⟨(tidy.atomVariable atom).congr (frame_display _ _ _).1 (stale_display _ _ _),
      (session.draws_atomVariable atom).trans (draws_display _ _ _)⟩
  | derive head body =>
    rw [groundRule_derive]
    have registered := (tidy.atomVariable head).bodyLiterals body
    have known := (grows_bodyLiterals (session.atomVariable head).2 body).isSome
      (Option.isSome_iff_exists.mpr ⟨_, session.varOf?_atomVariable head⟩)
    rw [varOf?_of_plain _ (plain head body rfl), Option.isSome_map] at known
    obtain ⟨entry, found⟩ := Option.isSome_iff_exists.mp known
    exact ⟨registered.derive (isSome_derived?_iff.mp known) body,
      ((session.draws_atomVariable head).trans (draws_bodyLiterals _ body)).trans
        (draws_derive registered.distinct found body)⟩
  | constraint body =>
    exact ⟨(tidy.bodyLiterals body).congr rfl rfl,
      (session.draws_bodyLiterals body).trans (draws_send _ _)⟩

theorem Tidy.foldl_groundRule {session : Session α} (tidy : session.Tidy) {rules : List (Rule α)}
    (plain : forall head body, .derive head body ∈ rules -> head.isStructural = false) :
    (rules.foldl Session.groundRule session).Tidy ∧
      session.Draws (rules.foldl Session.groundRule session) := by
  induction rules generalizing session with
  | nil => exact ⟨tidy, .refl session⟩
  | cons rule rest ih =>
    obtain ⟨grounded, first⟩ := tidy.groundRule rule fun head body same =>
      plain head body (same ▸ List.mem_cons_self)
    obtain ⟨last, others⟩ := ih grounded fun head body member =>
      plain head body (List.mem_cons_of_mem rule member)
    exact ⟨last, first.trans others⟩

end Rules

end Argumentation.Session
