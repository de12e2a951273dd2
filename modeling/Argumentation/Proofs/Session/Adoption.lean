import Argumentation.Proofs.Session.Registration

/-!
# Adopting rules

How one more rule enters a session. `Accounted.adopt` says which clauses have to be sent with it.
Rules that derive nothing are adopted here: a constraint brings one clause, and a displayed
membership one more visible label.
-/

namespace Argumentation.Session

open Argumentation.Sat (Literal Clause)

variable {α : Type}

/-- Sending clauses only adds to the journal. -/
theorem sendAll_eq (session : Session α) (clauses : List Clause) :
    session.sendAll clauses =
      { session with journal := (clauses.map Event.clause).reverse ++ session.journal } := by
  induction clauses generalizing session with
  | nil => rfl
  | cons clause rest ih =>
    have step : session.sendAll (clause :: rest) = (session.send clause).sendAll rest := rfl
    rw [step, ih]
    simp [send]

@[simp]
theorem sent_sendAll (session : Session α) (clauses : List Clause) :
    (session.sendAll clauses).sent = session.sent ++ clauses := by
  simp [sendAll_eq, sent, Journal.clauses, List.filterMap_map]

variable [DecidableEq α]

section Adopt

variable {ledger later : Ledger α} {rules more : List (Rule α)} {pending waiting : List (Atom α)}
  {session other : Session α}

/-- Further rules are accounted for when all that they require was sent, and only the entries of
atoms that wait for a completion clause have changed. -/
theorem Accounted.adopt (accounted : session.Accounted ledger rules pending)
    (recorded : session.Recorded ledger rules) (extra : List Clause)
    (sent : other.sent = session.sent ++ extra)
    (varOf? : forall atom, other.varOf? atom = session.varOf? atom)
    (keeps : forall var role, ledger.role? var = some role -> later.role? var = some role)
    (included : forall rule, rule ∈ rules -> rule ∈ more)
    (supports : forall var head body, later.role? var = some (.support head body) ->
      ledger.role? var = some (.support head body) ∨
        (conjunctionClauses var (body.map session.literal) ⊆ extra ∧
          [.neg var, .pos (session.number head)] ∈ extra))
    (constraints : forall body, .constraint body ∈ more -> .constraint body ∈ rules ∨
      (body.map session.literal).map Literal.negate ∈ extra)
    (reasons : forall clause, clause ∈ extra -> RuleClause later more other clause)
    (inUse : forall clause, clause ∈ extra -> forall literal, literal ∈ clause ->
      (later.role? literal.var).isSome)
    (settled : forall entry, entry ∈ other.derived -> entry.atom ∉ waiting ->
      entry ∈ session.derived)
    (wait : forall atom, atom ∈ pending -> atom ∈ waiting) :
    other.Accounted later more waiting := by
  have literal : other.literal = session.literal := funext fun _ => literal_congr (varOf? _)
  constructor
  case required =>
    intro clause reason
    rw [sent, List.mem_append]
    cases reason with
    | @definition var head body _ role member =>
      rw [literal] at member
      rcases supports var head body role with old | ⟨new, _⟩
      · exact .inl (accounted.required clause (.definition old member))
      · exact .inr (new member)
    | @derivation var head body role =>
      rw [number_congr (varOf? head)]
      rcases supports var head body role with old | ⟨_, new⟩
      · exact .inl (accounted.required _ (.derivation old))
      · exact .inr new
    | @constraint body member =>
      rw [literal]
      exact (constraints body member).imp_left fun old => accounted.required _ (.constraint old)
  case reasons =>
    intro clause member
    rw [sent, List.mem_append] at member
    rcases member with old | new
    · rcases accounted.reasons clause old with required | guarded
      · refine .inl (required.transfer (fun var head body role => ?_)
          (fun var head body => keeps var _) included fun atom _ => varOf? atom)
        exact recorded.derive_mem_iff.mpr ⟨var, role⟩
      · exact .inr (guarded.transfer keeps (fun entry listed _ => settled entry listed) wait)
    · exact .inl (reasons clause new)
  case inUse =>
    intro clause member literal inside
    rw [sent, List.mem_append] at member
    rcases member with old | new
    · obtain ⟨role, found⟩ := Option.isSome_iff_exists.mp
        (accounted.inUse clause old literal inside)
      exact Option.isSome_iff_exists.mpr ⟨role, keeps _ _ found⟩
    · exact inUse clause new literal inside

/-- The literals of a known body have variables in use. -/
theorem Numbered.isSome_role?_literal (numbered : session.Numbered ledger)
    {literal : BodyLiteral α} (known : (session.varOf? literal.atom).isSome) :
    (ledger.role? (session.literal literal).var).isSome := by
  obtain ⟨var, found⟩ := Option.isSome_iff_exists.mp known
  rw [var_literal, number_of_varOf? found, numbered.role_of_varOf? found]
  rfl

/-- A rule that derives nothing is recorded by its atoms and by what it makes visible. -/
theorem Recorded.adopt (recorded : session.Recorded ledger rules) {rule : Rule α}
    (bodiless : rule.derivation? = none) (derived : other.derived = session.derived)
    (varOf? : forall atom, other.varOf? atom = session.varOf? atom)
    (known : forall atom, atom ∈ rule.atoms -> (session.varOf? atom).isSome)
    (labels : other.shown.map Prod.fst = visible (rules ++ [rule]))
    (shown : forall label var, (label, var) ∈ other.shown ->
      session.varOf? (.inside label) = some var) : other.Recorded ledger (rules ++ [rule]) where
  derivations := by simp [recorded.derivations, Argumentation.derivations, bodiless]
  bodies := derived ▸ recorded.bodies
  heads head body member := by
    rcases List.mem_append.mp member with old | new
    · exact recorded.heads head body old
    · simp [← List.mem_singleton.mp new, Rule.derivation?] at bodiless
  known one member atom inside := by
    rw [varOf?]
    rcases List.mem_append.mp member with old | new
    · exact recorded.known one old atom inside
    · exact known atom (List.mem_singleton.mp new ▸ inside)
  labels := labels
  shown label var member := (varOf? _).trans (shown label var member)

/-- A rule that neither derives nor forbids anything needs no clause. -/
theorem Grounded.adopt (grounded : session.Grounded ledger rules pending) {rule : Rule α}
    (bodiless : rule.derivation? = none) (free : forall body, rule ≠ .constraint body)
    (known : forall atom, atom ∈ rule.atoms -> (session.varOf? atom).isSome)
    (numbers : other.Numbered ledger) (derived : other.derived = session.derived)
    (sent : other.sent = session.sent) (selectors : other.selectors = session.selectors)
    (varOf? : forall atom, other.varOf? atom = session.varOf? atom)
    (labels : other.shown.map Prod.fst = visible (rules ++ [rule]))
    (shown : forall label var, (label, var) ∈ other.shown ->
      session.varOf? (.inside label) = some var) :
    other.Grounded ledger (rules ++ [rule]) pending where
  toNumbered := numbers
  toRecorded := grounded.toRecorded.adopt bodiless derived varOf? known labels shown
  toSelected := grounded.toSelected.congr derived selectors (by simp [sent])
  toAccounted := by
    refine grounded.toAccounted.adopt grounded.toRecorded [] (by simp [sent]) varOf?
      (fun _ _ role => role) (fun _ old => List.mem_append_left _ old) (fun _ _ _ => .inl)
      (fun body member => .inl ?_) (by simp) (by simp) (fun _ member _ => derived ▸ member)
      fun _ waits => waits
    rcases List.mem_append.mp member with old | new
    · exact old
    · exact absurd (List.mem_singleton.mp new).symm (free body)

/-- A rule that makes nothing visible changes nothing, once its atoms are known. -/
theorem Grounded.adoptUnseen (grounded : session.Grounded ledger rules pending) {rule : Rule α}
    (bodiless : rule.derivation? = none) (free : forall body, rule ≠ .constraint body)
    (known : forall atom, atom ∈ rule.atoms -> (session.varOf? atom).isSome)
    (unseen : visible (rules ++ [rule]) = visible rules) :
    session.Grounded ledger (rules ++ [rule]) pending :=
  grounded.adopt bodiless free known grounded.toNumbered rfl rfl rfl (fun _ => rfl)
    (unseen ▸ grounded.labels) grounded.shown

/-- A constraint becomes the clause of the opposite literals. -/
theorem Grounded.addConstraint (grounded : session.Grounded ledger rules pending)
    {body : List (BodyLiteral α)}
    (known : forall literal, literal ∈ body -> (session.varOf? literal.atom).isSome) :
    (session.send ((body.map session.literal).map Literal.negate)).Grounded ledger
      (rules ++ [.constraint body]) pending where
  toNumbered := grounded.toNumbered.congr rfl rfl rfl
  toRecorded := by
    refine grounded.toRecorded.adopt rfl rfl (fun _ => rfl) ?_ ?_ grounded.shown
    · simpa [Rule.atoms, Rule.head?, Rule.body] using known
    · exact grounded.labels.trans (visible_append_of_none rfl).symm
  toSelected := grounded.toSelected.congr rfl rfl (by simp)
  toAccounted := by
    refine grounded.toAccounted.adopt grounded.toRecorded _ (sent_send session _) (fun _ => rfl)
      (fun _ _ role => role) (fun _ old => List.mem_append_left _ old) (fun _ _ _ => .inl)
      (fun other member => ?_) (fun clause member => ?_) (fun clause member literal inside => ?_)
      (fun _ member _ => member) fun _ waits => waits
    · rcases List.mem_append.mp member with old | new
      · exact .inl old
      · cases List.mem_singleton.mp new
        exact .inr (List.mem_singleton.mpr rfl)
    · rw [List.mem_singleton.mp member]
      exact .constraint (List.mem_append_right _ (List.mem_singleton.mpr rfl))
    · rw [List.mem_singleton.mp member] at inside
      simp only [List.map_map, List.mem_map, Function.comp_apply] at inside
      obtain ⟨original, listed, rfl⟩ := inside
      exact grounded.toNumbered.isSome_role?_literal (known original listed)

/-- A visible label is found by the variable of its membership. -/
theorem Grounded.shown_any_iff (grounded : session.Grounded ledger rules pending) {label : α}
    {var : Nat} (found : session.varOf? (.inside label) = some var) :
    (session.shown.any fun entry => entry.2 == var) = true ↔ label ∈ visible rules := by
  rw [← grounded.labels, List.any_eq_true, List.mem_map]
  constructor
  · rintro ⟨⟨other, index⟩, member, same⟩
    -- Distinct labels have distinct variables, because a variable has one role.
    have left := grounded.toNumbered.role_of_varOf? (grounded.shown other index member)
    have right := grounded.toNumbered.role_of_varOf? found
    simp only [beq_iff_eq] at same
    rw [same, right] at left
    simp only [Option.some.injEq, Role.atom.injEq, Atom.inside.injEq] at left
    exact ⟨_, member, left.symm⟩
  · rintro ⟨⟨other, index⟩, member, rfl⟩
    have same := grounded.shown other index member
    rw [found, Option.some.injEq] at same
    exact ⟨_, member, by simp [same]⟩

/-- A displayed membership goes to the end of the visible ones, unless it is there already. -/
theorem Grounded.addDisplay (grounded : session.Grounded ledger rules pending) {atom : Atom α}
    {var : Nat} (found : session.varOf? atom = some var) :
    (session.display atom var).Grounded ledger (rules ++ [.display atom]) pending := by
  have known : forall other, other ∈ (Rule.display atom).atoms ->
      (session.varOf? other).isSome := by
    simp [Rule.atoms, Rule.head?, Rule.body, found]
  cases atom with
  | inside label =>
    have seen := grounded.shown_any_iff found
    by_cases listed : label ∈ visible rules
    · simp only [display, seen.mpr listed, if_true]
      refine grounded.adoptUnseen rfl (by simp) known ?_
      simp [visible_append_singleton, Rule.visible?, listed]
    · simp only [display, if_neg (mt seen.mp listed)]
      refine grounded.adopt rfl (by simp) known (grounded.toNumbered.congr rfl rfl rfl) rfl rfl
        rfl (fun _ => rfl) ?_ fun other index member => ?_
      · simp [visible_append_singleton, Rule.visible?, listed, grounded.labels]
      · rcases List.mem_append.mp member with old | new
        · exact grounded.shown other index old
        · cases List.mem_singleton.mp new
          exact found
  | _ => exact grounded.adoptUnseen rfl (by simp) known (visible_append_of_none rfl)

end Adopt

end Argumentation.Session
