import Argumentation.Proofs.Session.Batches

/-!
# Flags

How the values of flags change: an applied batch brings a flag that is false, and setting the flag
of an element changes this flag alone. A refused request changes no flag.
-/

namespace Argumentation.Session

variable {α : Type} [DecidableEq α]

/-- The value of the flag of an element, if it has one. -/
def flagValue? (session : Session α) (element : Element α) : Option Bool :=
  (session.flag? element).map Flag.value

/-- Whether the flag of an element is declared and true. -/
def raised (session : Session α) (element : Element α) : Bool :=
  session.flagValue? element == some true

theorem flag_eq (session : Session α) (element : Element α) :
    session.flag element =
      match session.flagValue? element with
      | some value => .ok value
      | none => .error (.unknownElement element.flagAtom) := by
  simp only [flag, flagValue?]
  cases session.flag? element <;> rfl

theorem isSome_flagValue? (session : Session α) (element : Element α) :
    (session.flagValue? element).isSome = (session.flag? element).isSome := by
  simp [flagValue?]

theorem flag?_congr {session other : Session α} (flags : other.flags = session.flags)
    (element : Element α) : other.flag? element = session.flag? element := by
  simp only [flag?, flags]

theorem flagValue?_congr {session other : Session α} (flags : other.flags = session.flags)
    (element : Element α) : other.flagValue? element = session.flagValue? element := by
  simp only [flagValue?, flag?_congr flags]

theorem flag_congr {session other : Session α} (flags : other.flags = session.flags)
    (element : Element α) : other.flag element = session.flag element := by
  rw [flag_eq, flagValue?_congr flags, ← flag_eq]

theorem raised_congr {session other : Session α} (flags : other.flags = session.flags) :
    other.raised = session.raised := by
  funext element
  rw [raised, flagValue?_congr flags, raised]

/-- Only the newest flag of the element gets the value. -/
theorem find?_assignFlag (element other : Element α) (value : Bool) (flags : List (Flag α)) :
    ((assignFlag element value flags).find? fun flag => flag.element = other) =
      (flags.find? fun flag => flag.element = other).map fun flag =>
        if other = element then { flag with value } else flag := by
  induction flags with
  | nil => rfl
  | cons flag rest ih =>
    by_cases own : flag.element = element
    · by_cases asked : flag.element = other
      · simp [assignFlag, own, ← asked]
      · have different : other ≠ element := fun same => asked (own.trans same.symm)
        simp [assignFlag, own, different, different.symm]
    · by_cases asked : flag.element = other
      · have different : other ≠ element := fun same => own (asked.trans same)
        simp [assignFlag, asked, different]
      · simpa [assignFlag, own, asked] using ih

/-- A value has no part in the numbering. -/
theorem flagVars_assignFlag (element : Element α) (value : Bool)
    (flags : List (Flag α)) :
    (assignFlag element value flags).map (fun flag => (flag.element.flagAtom, flag.var)) =
      flags.map fun flag => (flag.element.flagAtom, flag.var) := by
  induction flags with
  | nil => rfl
  | cons flag rest ih =>
    by_cases own : flag.element = element <;> simp [assignFlag, own, ih]

variable [Label α]

/-- Applying an acceptable batch of a new element declares its flag. -/
theorem flagValue?_apply {session : Session α} {batch : Batch α}
    (new : session.batchId? batch.element = none) (accepts : session.Accepts batch)
    (element : Element α) :
    (session.apply batch).2.flagValue? element =
      if element = batch.element then some false else session.flagValue? element := by
  rw [apply_of_accepts new accepts]
  change ((session.announced batch).ground batch).flagValue? element = _
  by_cases own : element = batch.element
  · obtain ⟨var, found⟩ := accepts.announced.flag?_ground_self
    subst own
    simp [flagValue?, found]
  · simp only [own, if_false, flagValue?, flag?_ground_of_ne _ batch own]
    rfl

theorem batches_apply {session : Session α} {batch : Batch α}
    (new : session.batchId? batch.element = none) (accepts : session.Accepts batch) :
    (session.apply batch).2.batches = session.batches ++ [batch] := by
  rw [apply_of_accepts new accepts]

/-- A refused batch leaves the flags and the batches as they are, and so does a repeated one. -/
theorem frame_apply {session : Session α} {batch : Batch α}
    (refused : ¬ (session.batchId? batch.element = none ∧ session.Accepts batch)) :
    (session.apply batch).2.flags = session.flags ∧
      (session.apply batch).2.batches = session.batches := by
  obtain same | ⟨level, text, noted⟩ := apply_of_not_accepts refused
  · simp [same]
  · rw [noted]
    exact ⟨rfl, rfl⟩

/-- An element without a flag cannot be set. -/
theorem setFlag_of_unknown {session : Session α} {element : Element α}
    (unknown : session.flagValue? element = none) (value : Bool) :
    session.setFlag element value = (.error (.unknownElement element.flagAtom), session) := by
  have absent := Option.map_eq_none_iff.mp unknown
  simp [setFlag, absent]

/-- The session before the flag of an element is set: a change is noted. -/
def changing (session : Session α) (element : Element α) (value : Bool) : Session α :=
  if session.flagValue? element = some value then session
  else session.note .debug (flagNote element value)

theorem setFlag_of_known {session : Session α} {element : Element α}
    (known : (session.flagValue? element).isSome) (value : Bool) :
    session.setFlag element value =
      (.ok (), { session.changing element value with
        flags := assignFlag element value session.flags }) := by
  obtain ⟨flag, found⟩ := Option.isSome_iff_exists.mp (isSome_flagValue? session element ▸ known)
  simp [setFlag, changing, flagValue?, found]

theorem batches_setFlag (session : Session α) (element : Element α) (value : Bool) :
    (session.setFlag element value).2.batches = session.batches := by
  cases known : session.flagValue? element with
  | none => rw [setFlag_of_unknown known]
  | some old =>
    rw [setFlag_of_known (by simp [known])]
    simp only [changing]
    split <;> rfl

/-- The values of all flags after one was set. -/
theorem flagValue?_setFlag (session : Session α) (element other : Element α) (value : Bool) :
    (session.setFlag element value).2.flagValue? other =
      (session.flagValue? other).map fun old => if other = element then value else old := by
  cases known : session.flagValue? element with
  | none =>
    rw [setFlag_of_unknown known]
    by_cases same : other = element
    · simp [same, known]
    · simp [same]
  | some old =>
    rw [setFlag_of_known (by simp [known])]
    simp only [flagValue?, flag?, find?_assignFlag, Option.map_map]
    congr 1
    funext flag
    by_cases same : other = element <;> simp [same]

/-- Setting a flag keeps the invariant. -/
theorem Settled.setFlag {ledger : Ledger α} {session : Session α}
    (settled : session.Settled ledger) (element : Element α) (value : Bool) :
    (session.setFlag element value).2.Settled ledger := by
  cases known : session.flagValue? element with
  | none =>
    rw [setFlag_of_unknown known]
    exact settled
  | some old =>
    have noted : (session.changing element value).Settled ledger := by
      unfold changing
      split
      · exact settled
      · exact settled.note _ _
    have flags : (session.changing element value).flags = session.flags := by
      unfold changing
      split <;> rfl
    rw [setFlag_of_known (by simp [known])]
    refine noted.congr rfl ?_ (fun other => ?_) rfl rfl rfl rfl rfl rfl
    · simp only [flagVars, flagVars_assignFlag, flags]
    · simp only [flag?, find?_assignFlag, flags, Option.isSome_map]

theorem setFlags_cons {session : Session α} {element : Element α}
    (known : (session.flagValue? element).isSome) (value : Bool) (rest : List (Element α)) :
    session.setFlags value (element :: rest) =
      (session.setFlag element value).2.setFlags value rest := by
  rw [setFlags, setFlag_of_known known]

/-- Setting a flag declares no other. -/
theorem isSome_flagValue?_setFlag (session : Session α) (element other : Element α)
    (value : Bool) :
    ((session.setFlag element value).2.flagValue? other).isSome =
      (session.flagValue? other).isSome := by
  simp [flagValue?_setFlag]

theorem setFlags_of_known {session : Session α} {elements : List (Element α)}
    (known : forall element, element ∈ elements -> (session.flagValue? element).isSome)
    (value : Bool) : (session.setFlags value elements).1 = .ok () := by
  induction elements generalizing session with
  | nil => rfl
  | cons element rest ih =>
    rw [setFlags_cons (known element List.mem_cons_self)]
    refine ih fun other member => ?_
    rw [isSome_flagValue?_setFlag]
    exact known other (List.mem_cons_of_mem element member)

/-- The values of all flags after some were set. -/
theorem flagValue?_setFlags {session : Session α} {elements : List (Element α)}
    (known : forall element, element ∈ elements -> (session.flagValue? element).isSome)
    (value : Bool) (other : Element α) :
    (session.setFlags value elements).2.flagValue? other =
      (session.flagValue? other).map fun old => if other ∈ elements then value else old := by
  induction elements generalizing session with
  | nil => simp [setFlags]
  | cons element rest ih =>
    rw [setFlags_cons (known element List.mem_cons_self), ih, flagValue?_setFlag, Option.map_map]
    · congr 1
      funext old
      by_cases here : other = element <;> by_cases later : other ∈ rest <;> simp [here, later]
    · intro next member
      rw [isSome_flagValue?_setFlag]
      exact known next (List.mem_cons_of_mem element member)

theorem batches_setFlags (session : Session α) (value : Bool) (elements : List (Element α)) :
    (session.setFlags value elements).2.batches = session.batches := by
  induction elements generalizing session with
  | nil => rfl
  | cons element rest ih =>
    cases known : session.flagValue? element with
    | none => rw [setFlags, setFlag_of_unknown known]
    | some old => rw [setFlags_cons (by simp [known]), ih, batches_setFlag]

/-- Setting several flags keeps the invariant. -/
theorem Settled.setFlags {ledger : Ledger α} {session : Session α}
    (settled : session.Settled ledger) (value : Bool) (elements : List (Element α)) :
    (session.setFlags value elements).2.Settled ledger := by
  induction elements generalizing session with
  | nil => exact settled
  | cons element rest ih =>
    cases known : session.flagValue? element with
    | none =>
      rw [Session.setFlags, setFlag_of_unknown known]
      exact settled
    | some old =>
      rw [setFlags_cons (by simp [known])]
      exact ih (settled.setFlag element value)

end Argumentation.Session
