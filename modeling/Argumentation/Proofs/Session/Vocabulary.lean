import Argumentation.Proofs.Session.Exactness

/-!
# Vocabulary of a session

A session gives variables to no other atoms than those that it is told of. `Session.Coins` says
which atoms an operation may make known; a run makes known the atoms that the rules of its batches
mention, and `Session.isSome_varOf?_run` says that it knows all of these.
-/

namespace Argumentation.Session

variable {α : Type} [DecidableEq α]

/-- An operation makes no other atoms known than some. -/
def Coins (atoms : List (Atom α)) (session other : Session α) : Prop :=
  forall atom, (other.varOf? atom).isSome -> (session.varOf? atom).isSome ∨ atom ∈ atoms

theorem Coins.refl (atoms : List (Atom α)) (session : Session α) : Coins atoms session session :=
  fun _ known => .inl known

theorem Coins.trans {atoms : List (Atom α)} {first second third : Session α}
    (early : Coins atoms first second) (late : Coins atoms second third) :
    Coins atoms first third := by
  intro atom known
  rcases late atom known with before | coined
  · exact early atom before
  · exact .inr coined

theorem Coins.mono {atoms more : List (Atom α)} {session other : Session α}
    (coins : Coins atoms session other) (among : atoms ⊆ more) : Coins more session other :=
  fun atom known => (coins atom known).imp_right fun coined => among coined

/-- What keeps the table makes nothing known. -/
theorem Coins.of_eq (atoms : List (Atom α)) {session other : Session α}
    (same : forall atom, other.varOf? atom = session.varOf? atom) : Coins atoms session other :=
  fun atom known => .inl (same atom ▸ known)

/-- Steps that each make some atoms known, one after the other. -/
theorem Coins.foldl {β : Type} {atoms : List (Atom α)} {step : Session α -> β -> Session α}
    {items : List β} (each : forall session item, item ∈ items ->
      Coins atoms session (step session item)) (session : Session α) :
    Coins atoms session (items.foldl step session) := by
  induction items generalizing session with
  | nil => exact .refl atoms session
  | cons item rest ih =>
    exact (each session item List.mem_cons_self).trans
      (ih (fun session other member => each session other (List.mem_cons_of_mem item member)) _)

theorem coins_declareFlag (session : Session α) (element : Element α) :
    Coins [element.flagAtom] session (session.declareFlag element) := by
  intro atom known
  rw [isSome_varOf?_iff] at known ⊢
  obtain ⟨var, member⟩ := known
  rcases List.mem_cons.mp member with new | old
  · exact .inr (List.mem_singleton.mpr (Prod.mk.inj new).1)
  · exact .inl ⟨var, old⟩

theorem coins_atomVariable (session : Session α) (atom : Atom α) :
    Coins [atom] session (session.atomVariable atom).2 := by
  cases found : session.varOf? atom with
  | some var =>
    simp only [atomVariable, found]
    exact .refl [atom] session
  | none =>
    intro other known
    rw [isSome_varOf?_iff, table_atomVariable found] at known
    obtain ⟨var, member⟩ := known
    rcases List.mem_append.mp member with old | new
    · exact .inl (isSome_varOf?_iff.mpr ⟨var, old⟩)
    · exact .inr (List.mem_singleton.mpr (Prod.mk.inj (List.mem_singleton.mp new)).1)

theorem coins_bodyLiterals (session : Session α) (body : List (BodyLiteral α)) :
    Coins (body.map BodyLiteral.atom) session (session.bodyLiterals body).2 := by
  induction body generalizing session with
  | nil => exact .refl _ session
  | cons literal rest ih =>
    have first : Coins [literal.atom] session (session.bodyLiteral literal).2 := by
      rw [bodyLiteral_snd]
      exact session.coins_atomVariable literal.atom
    exact (first.mono (by simp)).trans ((ih _).mono (by simp))

theorem varOf?_display (session : Session α) (atom other : Atom α) (var : Nat) :
    (session.display atom var).varOf? other = session.varOf? other := by
  cases atom with
  | inside label =>
    simp only [display]
    split <;> rfl
  | _ => rfl

/-- A rule makes known the atoms that it mentions. -/
theorem coins_groundRule (session : Session α) (rule : Rule α) :
    Coins rule.atoms session (session.groundRule rule) := by
  cases rule with
  | external atom => exact .refl _ session
  | declare atom => exact (session.coins_atomVariable atom).mono (by simp [Rule.atoms, Rule.head?])
  | display atom =>
    exact ((session.coins_atomVariable atom).mono (by simp [Rule.atoms, Rule.head?])).trans
      (.of_eq _ fun other => varOf?_display _ atom other _)
  | derive head body =>
    rw [groundRule_derive]
    refine ((session.coins_atomVariable head).mono (by simp [Rule.atoms, Rule.head?])).trans
      (((coins_bodyLiterals _ body).mono ?_).trans (.of_eq _ (varOf?_derive _ head body)))
    simp [Rule.atoms, Rule.body]
  | constraint body =>
    have coins := session.coins_bodyLiterals body
    exact (coins.mono (by simp [Rule.atoms, Rule.head?, Rule.body])).trans (.of_eq _ fun _ => rfl)

/-- A batch with its declaration makes known the atoms that its rules mention. -/
theorem coins_ground (session : Session α) {batch : Batch α}
    (declared : .external batch.element.flagAtom ∈ batch.rules) :
    Coins (batch.rules.flatMap Rule.atoms) session (session.ground batch) := by
  have flag : batch.element.flagAtom ∈ batch.rules.flatMap Rule.atoms :=
    List.mem_flatMap.mpr ⟨_, declared, by simp [Rule.atoms, Rule.head?]⟩
  have flags : Coins (batch.rules.flatMap Rule.atoms) session (session.declared batch) :=
    .foldl (fun session _ _ => (session.coins_declareFlag batch.element).mono (by simpa using flag))
      session
  have rules : Coins (batch.rules.flatMap Rule.atoms) (session.declared batch)
      (batch.rules.foldl groundRule (session.declared batch)) :=
    .foldl (fun session rule member => (session.coins_groundRule rule).mono fun atom inside =>
      List.mem_flatMap.mpr ⟨rule, member, inside⟩) _
  have renewals (grounded : Session α) : Coins (batch.rules.flatMap Rule.atoms) grounded
      (grounded.stale.foldl renewCompletion grounded) :=
    .foldl (fun session atom _ => .of_eq _ (session.varOf?_renewCompletion atom)) _
  exact (flags.trans rules).trans ((renewals _).trans (.of_eq _ fun _ => rfl))

theorem Keeps.varOf? {session other : Session α} (keeps : session.Keeps other) (atom : Atom α) :
    other.varOf? atom = session.varOf? atom :=
  varOf?_congr (by rw [flagVars, keeps.flags, flagVars]) (by rw [atomVars, keeps.derived, atomVars])
    atom

section Runs

variable [Label α]

theorem varOf?_setFlag (session : Session α) (element : Element α) (value : Bool) (atom : Atom α) :
    (session.setFlag element value).2.varOf? atom = session.varOf? atom := by
  cases known : session.flagValue? element with
  | none => rw [setFlag_of_unknown known]
  | some old =>
    rw [setFlag_of_known (by simp [known])]
    refine varOf?_congr ?_ ?_ atom
    · simp only [flagVars, flagVars_assignFlag]
    · simp only [atomVars, changing]
      split <;> rfl

omit [DecidableEq α] [Label α] in
theorem mentions_append_singleton {batches : List (Batch α)} {batch : Batch α} {atom : Atom α} :
    Mentions (programOf (batches ++ [batch])) atom ↔
      Mentions (programOf batches) atom ∨ atom ∈ batch.rules.flatMap Rule.atoms := by
  simp only [Mentions, programOf, List.flatMap_append, List.mem_append, List.flatMap_singleton,
    or_and_right, exists_or, List.mem_flatMap]

/-- A request makes known the atoms of the batch that it brings, if it brings one. -/
theorem mentions_of_perform {session : Session α}
    (mentioned : forall atom, (session.varOf? atom).isSome ->
      Mentions (programOf session.batches) atom) (request : Request α) {atom : Atom α}
    (known : ((session.perform request).varOf? atom).isSome) :
    Mentions (programOf (session.perform request).batches) atom := by
  cases operates : request.operates with
  | false =>
    have keeps := keeps_perform operates session
    rw [keeps.varOf?] at known
    rw [keeps.batches]
    exact mentioned atom known
  | true =>
    cases request with
    | apply batch =>
      simp only [perform] at known ⊢
      by_cases taken : session.batchId? batch.element = none ∧ session.Accepts batch
      · obtain ⟨new, accepts⟩ := taken
        rw [apply_of_accepts new accepts] at known ⊢
        rw [mentions_append_singleton]
        have coins := (session.announced batch).coins_ground accepts.declared
        exact (coins atom known).imp_left (mentioned atom)
      · rw [(frame_apply taken).2]
        refine mentioned atom ?_
        obtain same | ⟨level, text, noted⟩ := apply_of_not_accepts taken
        · rwa [same] at known
        · rw [noted] at known
          exact known
    | setFlag element value =>
      rw [perform, varOf?_setFlag] at known
      rw [perform, batches_setFlag]
      exact mentioned atom known
    | solve engine deadline | findModel engine atoms => cases operates

/-- A session knows the atoms that the rules of its batches mention. -/
theorem isSome_varOf?_run (requests : List (Request α)) (atom : Atom α) :
    ((run requests).varOf? atom).isSome ↔ Mentions (programOf (run requests).batches) atom := by
  refine ⟨?_, (settled_run requests).choose_spec.toRecorded.isSome_varOf?⟩
  induction requests using List.reverseRecOn generalizing atom with
  | nil => simp [run, empty, varOf?, derived?]
  | append_singleton requests request ih =>
    rw [run_append_singleton]
    exact mentions_of_perform ih request

end Runs

end Argumentation.Session
