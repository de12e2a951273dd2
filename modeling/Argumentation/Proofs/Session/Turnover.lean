import Argumentation.Proofs.Session.Usage

/-!
# Selectors out of use

A batch renews the completion clauses of some atoms, and the selectors that they had go out of use.
An enumeration takes its own selector out of use when it ends. All of them are excluded by a clause.
After a run, the variables in use and the selectors out of use are the numbers up to the count of
the session, each once (`Session.uses_run`).
-/

namespace Argumentation.Session

open Argumentation.Sat (Literal Engine)

variable {α : Type} [DecidableEq α]

section Renewals

variable {session : Session α} {atom : Atom α} {entry : Derived α}

/-- The entry of an atom gives up its former selector for a new one. -/
theorem advances_renewCompletion (distinct : (session.atomVars.map Prod.fst).Nodup)
    (found : session.derived? atom = some entry) :
    session.Advances (session.renewCompletion atom) entry.selector.toList := by
  obtain ⟨before, after, shape, changed⟩ := exists_split distinct found
  have flags := (session.frame_renewCompletion atom).1
  have renewed : (session.renewCompletion atom).currents =
      before.filterMap Derived.selector ++ (session.variableCount + 1) ::
        after.filterMap Derived.selector := by
    rw [currents, derived_renewCompletion found, changed]
    simp
  have former : session.currents = before.filterMap Derived.selector ++
      (entry.selector.toList ++ after.filterMap Derived.selector) := by
    rw [currents, shape]
    cases chosen : entry.selector <;> simp [chosen]
  refine ⟨Advances.balance_next (List.perm_iff_count.mpr fun var => ?_)
    (variableCount_renewCompletion found), fun selector member => ?_, fun clause member => ?_,
    fun selector member => ?_⟩
  · rw [uses, renewed, flags, derived_renewCompletion found, changed, uses, former, shape]
    simp only [List.map_append, List.map_cons, List.flatMap_append, List.flatMap_cons,
      List.count_append, List.count_cons, List.count_nil]
    omega
  · rw [former] at member
    rw [renewed]
    simp only [List.mem_append, List.mem_cons] at member ⊢
    tauto
  · exact (mem_sent_renewCompletion found).mpr (.inl member)
  · exact (mem_sent_renewCompletion found).mpr (.inr (.inl ⟨selector, by simpa using member, rfl⟩))

/-- A renewal leaves the entries of other atoms as they are. -/
theorem derived?_renewCompletion_of_ne (session : Session α) {atom other : Atom α}
    (different : other ≠ atom) :
    (session.renewCompletion atom).derived? other = session.derived? other := by
  cases found : session.derived? atom with
  | none => simp [renewCompletion, found]
  | some entry =>
    have same : (fun entry : Derived α => decide (entry.atom = other)) ∘
        (fun entry => if entry.atom = atom then
          { entry with selector := some (session.variableCount + 1) } else entry) =
        fun entry => decide (entry.atom = other) := by
      funext entry
      by_cases own : entry.atom = atom <;> simp [own]
    rw [derived?, derived_renewCompletion found, List.find?_map, same, ← derived?]
    cases kept : session.derived? other with
    | none => rfl
    | some entry =>
      have owner : entry.atom = other := by simpa using List.find?_some kept
      simp [owner, different]

/-- The selectors of some atoms. -/
def selectorsOf (session : Session α) (atoms : List (Atom α)) : List Nat :=
  atoms.filterMap fun atom => (session.derived? atom).bind Derived.selector

/-- When several atoms get new selectors, they give up their former ones. -/
theorem advances_foldl_renewCompletion {session : Session α} {atoms : List (Atom α)}
    (distinct : (session.atomVars.map Prod.fst).Nodup) (once : atoms.Nodup)
    (known : atoms ⊆ session.atomVars.map Prod.fst) :
    session.Advances (atoms.foldl renewCompletion session) (session.selectorsOf atoms) := by
  induction atoms generalizing session with
  | nil => exact (Draws.refl session).toAdvances
  | cons atom rest ih =>
    obtain ⟨apart, others⟩ := List.nodup_cons.mp once
    obtain ⟨entry, found⟩ := Option.isSome_iff_exists.mp
      (isSome_derived?_iff.mpr (known List.mem_cons_self))
    have same := session.atomVars_renewCompletion atom
    -- The others are other atoms, so they give up what they had before this renewal.
    have later : (session.renewCompletion atom).selectorsOf rest = session.selectorsOf rest :=
      List.filterMap_congr fun other member => by
        rw [derived?_renewCompletion_of_ne session (ne_of_mem_of_not_mem member apart)]
    have split : session.selectorsOf (atom :: rest) =
        entry.selector.toList ++ session.selectorsOf rest := by
      cases chosen : entry.selector <;> simp [selectorsOf, found, chosen]
    rw [split, ← later]
    exact (advances_renewCompletion distinct found).trans (ih (same ▸ distinct) others
      (same ▸ List.Subset.trans (List.subset_cons_self atom rest) known))

end Renewals

section Batches

variable {session other : Session α} {batch : Batch α}

theorem Settled.tidy {ledger : Ledger α} (settled : session.Settled ledger) : session.Tidy where
  distinct := settled.atoms
  stale := by simp [settled.stale]
  waits := by simp [settled.stale]

theorem Accepts.taken (accepts : session.Accepts batch) (tidy : session.Tidy)
    {rules : List (Rule α)} (among : rules ⊆ batch.rules) :
    (rules.foldl groundRule (session.declared batch)).Tidy ∧
      session.Draws (rules.foldl groundRule (session.declared batch)) := by
  have declared : (session.declared batch).Tidy :=
    tidy.congr (frame_declareFlags _ _ _).1 (stale_declareFlags _ _ _)
  obtain ⟨taken, draws⟩ := declared.foldl_groundRule fun head body member =>
    (accepts.fits _ (among member)).derived head body rfl
  exact ⟨taken, (draws_declareFlags _ _ _).trans draws⟩

/-- A batch takes the selectors of the atoms out of use whose completion clauses it renews. -/
theorem Accepts.advances_ground (accepts : session.Accepts batch) (tidy : session.Tidy) :
    session.Advances (session.ground batch)
      ((session.taken batch).selectorsOf (session.taken batch).stale) := by
  obtain ⟨taken, draws⟩ := accepts.taken tidy (List.Subset.refl _)
  have renewed := advances_foldl_renewCompletion taken.distinct taken.stale taken.waits
  have finished : ((session.taken batch).stale.foldl renewCompletion (session.taken batch)).Draws
      (session.ground batch) := .of_frame rfl rfl rfl (List.Subset.refl _) rfl
  have advances := (draws.toAdvances.trans renewed).trans finished.toAdvances
  rw [List.nil_append, List.append_nil] at advances
  exact advances

theorem selectorsOf_subset (session : Session α) (atoms : List (Atom α)) :
    session.selectorsOf atoms ⊆ session.currents := by
  intro selector member
  obtain ⟨atom, _, chosen⟩ := List.mem_filterMap.mp member
  obtain ⟨entry, found, chosen⟩ := Option.bind_eq_some_iff.mp chosen
  exact List.mem_filterMap.mpr ⟨entry, List.mem_of_find?_eq_some found, chosen⟩

/-- The current selectors that are current no longer in a later session. -/
def replaced (session other : Session α) : List Nat :=
  session.currents.filter fun selector => selector ∉ other.currents

omit [DecidableEq α] in
theorem Draws.advances_replaced (draws : session.Draws other) :
    session.Advances other (session.replaced other) := by
  have none : session.replaced other = [] := by simp [replaced, draws.currents]
  rw [none]
  exact draws.toAdvances

omit [DecidableEq α] in
theorem draws_note (session : Session α) (level : Level) (text : String) :
    session.Draws (session.note level text) :=
  .of_frame rfl rfl rfl (by simp) (by simp [note, Journal.calls])

variable [Label α]

omit [DecidableEq α] in
theorem draws_announced (session : Session α) (batch : Batch α) :
    session.Draws (session.announced batch) :=
  (session.draws_note _ _).trans (draws_note _ _ _)

/-- Setting a flag draws and sends nothing. -/
theorem frame_setFlag (session : Session α) (element : Element α) (value : Bool) :
    (session.setFlag element value).2.flags.map Flag.var = session.flags.map Flag.var ∧
      (session.setFlag element value).2.derived = session.derived ∧
      (session.setFlag element value).2.variableCount = session.variableCount ∧
      (session.setFlag element value).2.sent = session.sent ∧
      (session.setFlag element value).2.journal.calls = session.journal.calls := by
  cases known : session.flagValue? element with
  | none => simp [setFlag_of_unknown known]
  | some old =>
    have vars := congrArg (List.map Prod.snd) (flagVars_assignFlag element value session.flags)
    rw [setFlag_of_known (by simp [known])]
    refine ⟨by simpa [Function.comp_def] using vars, ?_⟩
    simp only [Session.changing]
    split
    · exact ⟨rfl, rfl, rfl, rfl⟩
    · exact ⟨rfl, rfl, sent_note session _ _, by simp [note, Journal.calls]⟩

theorem draws_setFlag (session : Session α) (element : Element α) (value : Bool) :
    session.Draws (session.setFlag element value).2 := by
  obtain ⟨flags, derived, variableCount, sent, calls⟩ := session.frame_setFlag element value
  exact .of_frame flags derived variableCount (sent ▸ List.Subset.refl _) calls

/-- Applying a batch replaces some of the current selectors. -/
theorem Settled.advances_apply {ledger : Ledger α} (settled : session.Settled ledger)
    {past : List Nat}
    (whole : (session.uses ++ past).Perm (List.range' 1 session.variableCount))
    (batch : Batch α) :
    session.Advances (session.apply batch).2 (session.replaced (session.apply batch).2) := by
  rcases session.apply_cases batch with ⟨new, accepts⟩ | same | ⟨level, text, noted⟩
  · have again := accepts.announced
    have tidy := (settled.announced batch).tidy
    have noted := session.draws_announced batch
    have ground := again.advances_ground tidy
    have finished : ((session.announced batch).ground batch).Draws (session.apply batch).2 := by
      rw [apply_of_accepts new accepts]
      exact .of_frame rfl rfl rfl (List.Subset.refl _) rfl
    have advances := (noted.toAdvances.trans ground).trans finished.toAdvances
    -- What goes out of use are the selectors of the renewed atoms. They were current before the
    -- batch, for its rules take no selector, so they are those that were replaced.
    refine advances.perm (advances.perm_filter whole fun selector member => ?_)
    have former := selectorsOf_subset _ _ (by simpa using member)
    have kept : ((session.announced batch).taken batch).currents =
        (session.announced batch).currents :=
      (again.taken tidy (List.Subset.refl _)).2.currents
    rwa [kept, noted.currents] at former
  · rw [same]
    exact (Draws.refl session).advances_replaced
  · rw [noted]
    exact (session.draws_note level text).advances_replaced

end Batches

section Runs

variable [Label α]

/-- The selector of the enumeration that a request asks for. -/
def enumeration? (session : Session α) : Request α -> Option Nat
  | .solve _ _ => some session.fresh.1
  | _ => none

/-- The numbers that the requests of a run give, each in the session that receives it. -/
def gathered (give : Session α -> Request α -> List Nat) (session : Session α) :
    List (Request α) -> List Nat
  | [] => []
  | request :: rest => give session request ++ gathered give (session.perform request) rest

/-- The selectors of completion clauses that a run replaced, in order. -/
def retired (requests : List (Request α)) : List Nat :=
  gathered (fun session request => session.replaced (session.perform request)) empty requests

/-- The selectors of the enumerations of a run, in order. -/
def enumerations (requests : List (Request α)) : List Nat :=
  gathered (fun session request => (session.enumeration? request).toList) empty requests

theorem gathered_append (give : Session α -> Request α -> List Nat) (session : Session α)
    (requests others : List (Request α)) :
    gathered give session (requests ++ others) =
      gathered give session requests ++ gathered give (requests.foldl perform session) others := by
  induction requests generalizing session with
  | nil => rfl
  | cons request rest ih => simp [gathered, ih]

omit [DecidableEq α] [Label α] in
theorem advances_ask (session : Session α) (engine : Engine) (assumptions : List Literal) :
    session.Advances (session.ask engine assumptions).2 [] where
  balance := by
    rw [List.append_nil]
    exact .refl _
  kept _ member := .inl member
  sent := by simp
  excluded := by simp

omit [DecidableEq α] [Label α] in
/-- An enumeration takes its own selector out of use. -/
theorem advances_solve (session : Session α) (engine : Engine) (deadline : Deadline) :
    session.Advances (session.solve engine deadline).2 [session.variableCount + 1] := by
  have keeps := session.keeps_solve engine deadline
  obtain ⟨models, made, sent, _, count⟩ := session.exists_sent_solve engine deadline
  have currents : (session.solve engine deadline).2.currents = session.currents := by
    simp only [Session.currents, keeps.derived]
  have uses : (session.solve engine deadline).2.uses = session.uses := by
    simp only [Session.uses, keeps.flags, keeps.derived, currents]
  refine ⟨Advances.balance_next (by rw [uses]) count,
    fun selector member => .inl (currents ▸ member), ?_, fun selector member => ?_⟩
  · rw [sent]
    exact List.subset_append_left _ _
  · rw [sent, List.mem_singleton.mp member]
    simp

/-- A request takes out of use the selectors that it replaces and that of its enumeration. -/
theorem Settled.advances_perform {ledger : Ledger α} {session : Session α}
    (settled : session.Settled ledger) {past : List Nat}
    (whole : (session.uses ++ past).Perm (List.range' 1 session.variableCount))
    (request : Request α) :
    session.Advances (session.perform request)
      (session.replaced (session.perform request) ++ (session.enumeration? request).toList) := by
  have replaced : forall other : Session α, other.currents = session.currents ->
      session.replaced other = [] := fun other same => by simp [Session.replaced, same]
  cases request with
  | apply batch =>
    simp only [enumeration?, Option.toList_none, List.append_nil]
    exact settled.advances_apply whole batch
  | setFlag element value =>
    have draws := session.draws_setFlag element value
    rw [Session.perform, replaced _ draws.currents]
    exact draws.toAdvances
  | solve engine deadline =>
    have derived := (session.keeps_solve engine deadline).derived
    rw [Session.perform, replaced _ (by simp only [currents, derived])]
    exact session.advances_solve engine deadline
  | findModel engine atoms =>
    have derived := (session.keeps_findModel engine atoms).derived
    rw [Session.perform, replaced _ (by simp only [currents, derived])]
    rcases session.findModel_cases engine atoms with same | ⟨literals, _, asked⟩
    · rw [same]
      exact (Draws.refl session).toAdvances
    · rw [asked]
      exact session.advances_ask engine _

theorem retired_append_singleton (requests : List (Request α)) (request : Request α) :
    retired (requests ++ [request]) =
      retired requests ++ (run requests).replaced (run (requests ++ [request])) := by
  rw [retired, gathered_append, run_append_singleton, ← run]
  simp [gathered, retired]

theorem enumerations_append_singleton (requests : List (Request α)) (request : Request α) :
    enumerations (requests ++ [request]) =
      enumerations requests ++ ((run requests).enumeration? request).toList := by
  rw [enumerations, gathered_append, ← run]
  simp [gathered, enumerations]

/-- After a run, the variables in use and the selectors out of use are all the variables up to the
count, each once, and those out of use have been excluded. -/
theorem uses_run (requests : List (Request α)) :
    let session := run requests
    let past := retired requests ++ enumerations requests
    (session.uses ++ past).Perm (List.range' 1 session.variableCount) ∧
      forall selector, selector ∈ past -> [.neg selector] ∈ session.sent := by
  induction requests using List.reverseRecOn with
  | nil => simp [run, empty, uses, currents, retired, enumerations, gathered]
  | append_singleton requests request ih =>
    obtain ⟨whole, excluded⟩ := ih
    obtain ⟨ledger, settled⟩ := settled_run requests
    have advances := settled.advances_perform whole request
    rw [← run_append_singleton] at advances
    have regrouped : (retired requests ++ enumerations requests ++
        ((run requests).replaced (run (requests ++ [request])) ++
          ((run requests).enumeration? request).toList)).Perm
        (retired (requests ++ [request]) ++ enumerations (requests ++ [request])) := by
      rw [retired_append_singleton, enumerations_append_singleton]
      refine List.perm_iff_count.mpr fun var => ?_
      simp only [List.count_append]
      omega
    refine ⟨(regrouped.symm.append_left _).trans (advances.partition whole),
      fun selector member => ?_⟩
    rcases List.mem_append.mp (regrouped.mem_iff.mpr member) with old | new
    · exact advances.sent (excluded selector old)
    · exact advances.excluded selector new

end Runs

end Argumentation.Session
