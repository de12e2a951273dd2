import Argumentation.Proofs.Session.Derivation

/-!
# Renewing completion clauses

A pending atom gets a completion clause that lists all its bodies under a fresh selector, and its
former selector is taken out of use. Once all the pending atoms were served, the session is grounded
for good.
-/

namespace Argumentation.Session

open Argumentation.Sat (Literal Clause)

variable {α : Type} [DecidableEq α]

section Effects

variable {session : Session α} {atom : Atom α} {entry : Derived α}

theorem derived_renewCompletion (found : session.derived? atom = some entry) :
    (session.renewCompletion atom).derived = session.derived.map fun other =>
      if other.atom = atom then { other with selector := some (session.variableCount + 1) }
      else other := by
  cases chosen : entry.selector <;>
    simp [renewCompletion, found, chosen, fresh, retire, send, assignSelector]

theorem sent_renewCompletion (found : session.derived? atom = some entry) :
    (session.renewCompletion atom).sent = session.sent ++
      (entry.selector.toList.map (fun old => [Literal.neg old]) ++
        [completionClause (session.variableCount + 1) entry]) := by
  cases chosen : entry.selector <;>
    simp [renewCompletion, found, chosen, fresh, retire, send, assignSelector, sent,
      Journal.clauses]

theorem selectors_renewCompletion (found : session.derived? atom = some entry) :
    (session.renewCompletion atom).selectors =
      (entry.selector.elim session.selectors session.selectors.remove).push
        (session.variableCount + 1) := by
  cases chosen : entry.selector <;>
    simp [renewCompletion, found, chosen, fresh, retire, send, assignSelector]

theorem variableCount_renewCompletion (found : session.derived? atom = some entry) :
    (session.renewCompletion atom).variableCount = session.variableCount + 1 := by
  cases chosen : entry.selector <;>
    simp [renewCompletion, found, chosen, fresh, retire, send, assignSelector]

end Effects

/-- A renewal leaves flags, batches and visible labels as they are. -/
theorem frame_renewCompletion (session : Session α) (atom : Atom α) :
    (session.renewCompletion atom).flags = session.flags ∧
      (session.renewCompletion atom).batches = session.batches ∧
      (session.renewCompletion atom).shown = session.shown := by
  cases found : session.derived? atom with
  | none => simp [renewCompletion, found]
  | some entry =>
    cases chosen : entry.selector <;>
      simp [renewCompletion, found, chosen, fresh, retire, send, assignSelector]

theorem atomVars_renewCompletion (session : Session α) (atom : Atom α) :
    (session.renewCompletion atom).atomVars = session.atomVars := by
  cases found : session.derived? atom with
  | none => simp [renewCompletion, found]
  | some entry =>
    rw [atomVars, derived_renewCompletion found, List.map_map, atomVars]
    refine List.map_congr_left fun other _ => ?_
    by_cases same : other.atom = atom <;> simp [same]

theorem varOf?_renewCompletion (session : Session α) (atom other : Atom α) :
    (session.renewCompletion atom).varOf? other = session.varOf? other := by
  refine varOf?_congr ?_ (session.atomVars_renewCompletion atom) other
  rw [flagVars, (session.frame_renewCompletion atom).1, flagVars]

section Renew

variable {ledger : Ledger α} {rules : List (Rule α)} {pending : List (Atom α)}
  {session : Session α} {atom : Atom α} {entry : Derived α}

omit [DecidableEq α] in
/-- A variable with a role is not the next one. -/
theorem Numbered.ne_next (numbered : session.Numbered ledger) {var : Nat} {role : Role α}
    (found : ledger.role? var = some role) : var ≠ session.variableCount + 1 := by
  have bounds := Ledger.bounds found
  have count := numbered.count
  omega

omit [DecidableEq α] in
theorem Selected.role_of_mem (selected : session.Selected ledger pending) {selector : Nat}
    (member : selector ∈ session.selectors.members) :
    ∃ owner, ledger.role? selector = some (.completion owner) := by
  obtain ⟨owner, listed, chosen⟩ := (selected.members selector).mp member
  exact ⟨_, selected.selectorRole owner listed selector chosen⟩

/-- The entries after a renewal: that of the atom with a new selector, and all others. -/
theorem Numbered.mem_renewCompletion (numbered : session.Numbered ledger)
    (found : session.derived? atom = some entry) {other : Derived α} :
    other ∈ (session.renewCompletion atom).derived ↔
      other = { entry with selector := some (session.variableCount + 1) } ∨
        other ∈ session.derived ∧ other.atom ≠ atom := by
  obtain ⟨listed, owned⟩ := numbered.derived?_eq_some.mp found
  rw [derived_renewCompletion found, List.mem_map]
  constructor
  · rintro ⟨before, member, rfl⟩
    by_cases same : before.atom = atom
    · rw [numbered.derived?_eq_some.mpr ⟨member, same⟩, Option.some.injEq] at found
      exact .inl (by simp [owned, found])
    · exact .inr (by simpa [same] using member)
  · rintro (rfl | ⟨member, different⟩)
    · exact ⟨entry, listed, by simp [owned]⟩
    · exact ⟨other, member, by simp [different]⟩

theorem mem_sent_renewCompletion (found : session.derived? atom = some entry) {clause : Clause} :
    clause ∈ (session.renewCompletion atom).sent ↔
      clause ∈ session.sent ∨ (∃ old, entry.selector = some old ∧ clause = [.neg old]) ∨
        clause = completionClause (session.variableCount + 1) entry := by
  simp [sent_renewCompletion found, eq_comm]

theorem Recorded.renew (recorded : session.Recorded ledger rules)
    (numbered : session.Numbered ledger) (found : session.derived? atom = some entry) :
    (session.renewCompletion atom).Recorded (ledger.push (.completion atom)) rules where
  derivations := by simp [Ledger.derivations_push, Role.derivation?, recorded.derivations]
  bodies other member := by
    have supports : (ledger.push (.completion atom)).supports other.atom =
        ledger.supports other.atom := by
      simp [Ledger.supports_push, Role.derivation?]
    rw [supports]
    rcases (numbered.mem_renewCompletion found).mp member with rfl | ⟨former, _⟩
    · exact recorded.bodies entry (numbered.derived?_eq_some.mp found).1
    · exact recorded.bodies other former
  heads := recorded.heads
  known rule member other inside := by
    rw [varOf?_renewCompletion]
    exact recorded.known rule member other inside
  labels := by rw [(session.frame_renewCompletion atom).2.2, recorded.labels]
  shown label var member := by
    rw [varOf?_renewCompletion]
    exact recorded.shown label var ((session.frame_renewCompletion atom).2.2 ▸ member)

/-- The selectors after a renewal: the new one, and all but the one that it replaces. -/
theorem Selected.mem_renew (selected : session.Selected ledger pending)
    (found : session.derived? atom = some entry) {selector : Nat} :
    selector ∈ (session.renewCompletion atom).selectors.members ↔
      (selector ∈ session.selectors.members ∧ entry.selector ≠ some selector) ∨
        selector = session.variableCount + 1 := by
  rw [selectors_renewCompletion found, Roster.mem_members_push]
  cases chosen : entry.selector with
  | none => simp
  | some old => simp [selected.roster.mem_members_remove, eq_comm]

theorem Selected.roster_renew (selected : session.Selected ledger pending)
    (numbered : session.Numbered ledger) (found : session.derived? atom = some entry) :
    (session.renewCompletion atom).selectors.Consistent := by
  have unused : session.variableCount + 1 ∉ session.selectors.members := by
    intro member
    obtain ⟨owner, role⟩ := selected.role_of_mem member
    exact numbered.ne_next role rfl
  rw [selectors_renewCompletion found]
  cases entry.selector with
  | none => exact selected.roster.push unused
  | some old =>
    refine (selected.roster.remove old).push fun member => ?_
    exact unused (selected.roster.mem_members_remove.mp member).1

omit [DecidableEq α] in
/-- Two entries with one selector have one atom. -/
theorem Selected.atom_unique (selected : session.Selected ledger pending)
    {first second : Derived α} (left : first ∈ session.derived) (right : second ∈ session.derived)
    {selector : Nat} (ofFirst : first.selector = some selector)
    (ofSecond : second.selector = some selector) : first.atom = second.atom := by
  have role := selected.selectorRole first left selector ofFirst
  rw [selected.selectorRole second right selector ofSecond] at role
  simp only [Option.some.injEq, Role.completion.injEq] at role
  exact role.symm

theorem Selected.renew (selected : session.Selected ledger (atom :: pending))
    (numbered : session.Numbered ledger) (found : session.derived? atom = some entry) :
    (session.renewCompletion atom).Selected (ledger.push (.completion atom)) pending where
  selectorRole other member selector chosen := by
    rcases (numbered.mem_renewCompletion found).mp member with rfl | ⟨former, _⟩
    · rw [← Option.some.inj chosen, (numbered.derived?_eq_some.mp found).2]
      exact numbered.role?_next _
    · exact Ledger.role?_push_of_some (selected.selectorRole other former selector chosen)
  roster := selected.roster_renew numbered found
  members selector := by
    obtain ⟨listed, owned⟩ := numbered.derived?_eq_some.mp found
    rw [selected.mem_renew found]
    constructor
    · rintro (⟨member, kept⟩ | rfl)
      · obtain ⟨other, former, chosen⟩ := (selected.members selector).mp member
        have different : other.atom ≠ atom := by
          intro same
          rw [numbered.derived?_eq_some.mpr ⟨former, same⟩, Option.some.injEq] at found
          exact kept (found ▸ chosen)
        exact ⟨other, (numbered.mem_renewCompletion found).mpr (.inr ⟨former, different⟩), chosen⟩
      · exact ⟨_, (numbered.mem_renewCompletion found).mpr (.inl rfl), rfl⟩
    · rintro ⟨other, member, chosen⟩
      rcases (numbered.mem_renewCompletion found).mp member with rfl | ⟨former, different⟩
      · exact .inr (Option.some.inj chosen).symm
      · refine .inl ⟨(selected.members selector).mpr ⟨other, former, chosen⟩, fun replaced => ?_⟩
        exact different ((selected.atom_unique former listed chosen replaced).trans owned)
  current other member settled := by
    rcases (numbered.mem_renewCompletion found).mp member with rfl | ⟨former, different⟩
    · exact ⟨_, rfl, (mem_sent_renewCompletion found).mpr (.inr (.inr rfl))⟩
    · obtain ⟨selector, chosen, inside⟩ := selected.current other former (by
        simp [different, settled])
      exact ⟨selector, chosen, (mem_sent_renewCompletion found).mpr (.inl inside)⟩
  retired selector owner role absent := by
    rw [selected.mem_renew found, not_or, not_and_not_right] at absent
    rw [mem_sent_renewCompletion found]
    rcases Ledger.role?_push.mp role with old | ⟨new, _⟩
    · by_cases member : selector ∈ session.selectors.members
      · exact .inr (.inl ⟨selector, absent.1 member, rfl⟩)
      · exact .inl (selected.retired selector owner old member)
    · exact absurd (numbered.count ▸ new) absent.2

/-- A renewal does not change what the rules require. -/
theorem Recorded.ruleClause_renew (recorded : session.Recorded ledger rules) {clause : Clause} :
    RuleClause (ledger.push (.completion atom)) rules (session.renewCompletion atom) clause ↔
      RuleClause ledger rules session clause := by
  have support : forall var head body,
      (ledger.push (.completion atom)).role? var = some (.support head body) ->
        ledger.role? var = some (.support head body) := by
    intro var head body role
    rcases Ledger.role?_push.mp role with old | ⟨_, new⟩
    · exact old
    · cases new
  have derive : forall var head body, ledger.role? var = some (.support head body) ->
      .derive head body ∈ rules := fun var head body role =>
    recorded.derive_mem_iff.mpr ⟨var, role⟩
  constructor
  · intro reason
    refine reason.transfer (fun var head body role => ?_) support (fun _ member => member)
      fun other _ => (varOf?_renewCompletion session atom other).symm
    exact derive var head body (support var head body role)
  · intro reason
    exact reason.transfer derive (fun _ _ _ => Ledger.role?_push_of_some)
      (fun _ member => member) fun other _ => varOf?_renewCompletion session atom other

/-- Clauses that were switched off stay so. -/
theorem Guarded.renew {clause : Clause}
    (guarded : Guarded ledger (atom :: pending) session clause)
    (numbered : session.Numbered ledger) (found : session.derived? atom = some entry) :
    Guarded (ledger.push (.completion atom)) pending (session.renewCompletion atom) clause := by
  obtain ⟨selector, inside, idle | ⟨⟨owner, role⟩, completes⟩⟩ := guarded
  · exact ⟨selector, inside, .inl (Ledger.role?_push_of_some idle)⟩
  · refine ⟨selector, inside, .inr ⟨⟨owner, Ledger.role?_push_of_some role⟩, ?_⟩⟩
    intro other member chosen
    rcases (numbered.mem_renewCompletion found).mp member with rfl | ⟨former, different⟩
    · exact absurd (Option.some.inj chosen).symm (numbered.ne_next role)
    · simpa [different] using completes other former chosen

/-- The former selector of the atom is that of no entry any more. -/
theorem Selected.guarded_retired (selected : session.Selected ledger (atom :: pending))
    (numbered : session.Numbered ledger) (found : session.derived? atom = some entry) {old : Nat}
    (chosen : entry.selector = some old) :
    Guarded (ledger.push (.completion atom)) pending (session.renewCompletion atom)
      [.neg old] := by
  obtain ⟨listed, owned⟩ := numbered.derived?_eq_some.mp found
  have role := selected.selectorRole entry listed old chosen
  refine ⟨old, List.mem_cons_self, .inr ⟨⟨_, Ledger.role?_push_of_some role⟩, ?_⟩⟩
  intro other member again
  rcases (numbered.mem_renewCompletion found).mp member with rfl | ⟨former, different⟩
  · exact absurd (Option.some.inj again).symm (numbered.ne_next role)
  · exact absurd ((selected.atom_unique former listed again chosen).trans owned) different

/-- The new selector guards the completion clause of its atom. -/
theorem Selected.guarded_completion (selected : session.Selected ledger (atom :: pending))
    (numbered : session.Numbered ledger) (found : session.derived? atom = some entry) :
    Guarded (ledger.push (.completion atom)) pending (session.renewCompletion atom)
      (completionClause (session.variableCount + 1) entry) := by
  refine ⟨session.variableCount + 1, by simp [completionClause],
    .inr ⟨⟨_, numbered.role?_next _⟩, fun other member chosen => .inr ?_⟩⟩
  rcases (numbered.mem_renewCompletion found).mp member with rfl | ⟨former, _⟩
  · rfl
  · exact absurd rfl (numbered.ne_next (selected.selectorRole other former _ chosen))

theorem Accounted.renew (accounted : session.Accounted ledger rules (atom :: pending))
    (selected : session.Selected ledger (atom :: pending))
    (recorded : session.Recorded ledger rules) (numbered : session.Numbered ledger)
    (found : session.derived? atom = some entry) :
    (session.renewCompletion atom).Accounted (ledger.push (.completion atom)) rules pending where
  required clause reason := by
    rw [recorded.ruleClause_renew] at reason
    exact (mem_sent_renewCompletion found).mpr (.inl (accounted.required clause reason))
  reasons clause member := by
    rw [recorded.ruleClause_renew]
    rcases (mem_sent_renewCompletion found).mp member with old | ⟨old, chosen, rfl⟩ | rfl
    · exact (accounted.reasons clause old).imp_right fun guarded => guarded.renew numbered found
    · exact .inr (selected.guarded_retired numbered found chosen)
    · exact .inr (selected.guarded_completion numbered found)
  inUse clause member one inside := by
    obtain ⟨listed, _⟩ := numbered.derived?_eq_some.mp found
    rcases (mem_sent_renewCompletion found).mp member with old | ⟨old, chosen, rfl⟩ | rfl
    · exact Ledger.isSome_role?_push (accounted.inUse clause old one inside)
    · have role := selected.selectorRole entry listed old chosen
      simp [List.mem_singleton.mp inside, Literal.neg, Ledger.role?_push_of_some role]
    · simp only [completionClause, List.mem_cons, List.mem_map] at inside
      rcases inside with rfl | rfl | ⟨support, body, rfl⟩
      · simp [Literal.neg, numbered.role?_next]
      · have role := numbered.role_of_varOf? (numbered.varOf?_derived listed)
        simp [Literal.neg, Ledger.role?_push_of_some role]
      · rw [recorded.bodies entry listed, Ledger.mem_supports] at body
        obtain ⟨conditions, role⟩ := body
        simp [Literal.pos, Ledger.role?_push_of_some role]

/-- A renewal serves one pending atom. -/
theorem Grounded.renewCompletion (grounded : session.Grounded ledger rules (atom :: pending)) :
    ∃ later, (session.renewCompletion atom).Grounded later rules pending := by
  cases found : session.derived? atom with
  | none =>
    have absent : forall entry, entry ∈ session.derived -> entry.atom ≠ atom := by
      intro entry member same
      rw [derived?, List.find?_eq_none] at found
      exact found entry member (by simpa using same)
    have unchanged : session.renewCompletion atom = session := by
      simp [Session.renewCompletion, found]
    rw [unchanged]
    refine ⟨ledger, { grounded with current := ?_, reasons := ?_ }⟩
    · intro entry member settled
      exact grounded.current entry member (by simp [settled, absent entry member])
    · intro clause member
      refine (grounded.reasons clause member).imp_right ?_
      rintro ⟨selector, inside, guard⟩
      refine ⟨selector, inside, guard.imp_right ?_⟩
      rintro ⟨role, completes⟩
      refine ⟨role, fun entry listed chosen => ?_⟩
      simpa [absent entry listed] using completes entry listed chosen
  | some entry =>
    refine ⟨ledger.push (.completion atom), ?_, ?_, ?_, ?_⟩
    · refine (grounded.toNumbered.fresh (.completion atom)).congr
        (variableCount_renewCompletion found) ?_ (atomVars_renewCompletion session atom)
      rw [flagVars, (session.frame_renewCompletion atom).1]
      rfl
    · exact grounded.toRecorded.renew grounded.toNumbered found
    · exact grounded.toSelected.renew grounded.toNumbered found
    · exact grounded.toAccounted.renew grounded.toSelected grounded.toRecorded
        grounded.toNumbered found

end Renew

theorem grows_renewCompletion (session : Session α) (atom : Atom α) :
    session.Grows (session.renewCompletion atom) where
  known other _ found := (varOf?_renewCompletion session atom other).trans found
  flags := (session.frame_renewCompletion atom).1
  batches := (session.frame_renewCompletion atom).2.1

theorem grows_foldl_renewCompletion (session : Session α) (atoms : List (Atom α)) :
    session.Grows (atoms.foldl Session.renewCompletion session) := by
  induction atoms generalizing session with
  | nil => exact .refl session
  | cons atom rest ih => exact (session.grows_renewCompletion atom).trans (ih _)

/-- The first pending atoms are served one after the other. -/
theorem Grounded.foldl_renewCompletion {ledger : Ledger α} {rules : List (Rule α)}
    {served pending : List (Atom α)} {session : Session α}
    (grounded : session.Grounded ledger rules (served ++ pending)) :
    ∃ later, (served.foldl Session.renewCompletion session).Grounded later rules pending := by
  induction served generalizing session ledger with
  | nil => exact ⟨ledger, grounded⟩
  | cons atom rest ih =>
    obtain ⟨later, renewed⟩ := grounded.renewCompletion
    exact ih renewed

end Argumentation.Session
