import Argumentation.Sat.Marks

/-!
# Search

A backtracking search for a model. Literals that stand alone in a clause must be true, so they are
all taken together; when there are none, a literal of the first clause is tried and then its
opposite. Clauses that hold because of a true literal are dropped, and false literals are taken out
of the others. An empty clause, or two opposite literals that must both be true, end a branch.
-/

namespace Argumentation.Sat

/-- The literals that stand alone in a clause. -/
def units (clauses : List Clause) : List Literal :=
  clauses.filterMap fun
    | [literal] => some literal
    | _ => none

/-- What is left of a clause once the marked literals are true: nothing when one of them is in it,
or else the literals whose opposite is not marked. -/
def reduceClause (marks : Marks) (clause : Clause) : Option Clause :=
  if clause.any marks.contains then none
  else some (clause.filter fun literal => !marks.contains literal.negate)

/-- The clauses that are left to satisfy once some literals are true. -/
def reduce (literals : List Literal) (clauses : List Clause) : List Clause :=
  clauses.filterMap (reduceClause (.ofList literals))

/-- Whether two of the literals are opposite. -/
def contradictory (literals : List Literal) : Bool :=
  let marks := Marks.ofList literals
  literals.any fun literal => marks.contains literal.negate

/-- The number of clauses and literals. -/
def size : List Clause -> Nat
  | [] => 0
  | clause :: clauses => clause.length + 1 + size clauses

theorem size_cons (clause : Clause) (clauses : List Clause) :
    size (clause :: clauses) = clause.length + 1 + size clauses :=
  rfl

theorem reduceClause_ofList (literals : List Literal) (clause : Clause) :
    reduceClause (.ofList literals) clause =
      if ∃ literal, literal ∈ clause ∧ literal ∈ literals then none
      else some (clause.filter fun literal => literal.negate ∉ literals) := by
  simp [reduceClause, Marks.contains_ofList]

theorem reduce_cons (literals : List Literal) (clause : Clause) (clauses : List Clause) :
    reduce literals (clause :: clauses) =
      if ∃ literal, literal ∈ clause ∧ literal ∈ literals then reduce literals clauses
      else (clause.filter fun literal => literal.negate ∉ literals) :: reduce literals clauses := by
  simp only [reduce, List.filterMap_cons, reduceClause_ofList]
  split <;> simp_all

theorem size_reduce_le (literals : List Literal) (clauses : List Clause) :
    size (reduce literals clauses) <= size clauses := by
  induction clauses with
  | nil => simp [reduce, size]
  | cons clause clauses ih =>
    rw [reduce_cons, size_cons]
    split
    · omega
    · rw [size_cons]
      have shorter := List.length_filter_le
        (fun literal : Literal => decide (literal.negate ∉ literals)) clause
      omega

/-- Making a literal of some clause true leaves less to satisfy. -/
theorem size_reduce_lt {literals : List Literal} {clauses : List Clause} {clause : Clause}
    {literal : Literal} (occurs : clause ∈ clauses) (inside : literal ∈ clause)
    (chosen : literal ∈ literals) : size (reduce literals clauses) < size clauses := by
  induction clauses with
  | nil => cases occurs
  | cons first rest ih =>
    rw [reduce_cons, size_cons]
    have shrinks := size_reduce_le literals rest
    split
    · omega
    · rename_i absent
      rcases List.mem_cons.mp occurs with rfl | later
      · exact absurd ⟨literal, inside, chosen⟩ absent
      · rw [size_cons]
        have shorter := List.length_filter_le
          (fun literal : Literal => decide (literal.negate ∉ literals)) first
        have less := ih later
        omega

/-- Making the opposite of a literal of the first clause true leaves less to satisfy. -/
theorem size_reduce_negate_lt (literal : Literal) (clause : Clause) (clauses : List Clause) :
    size (reduce [literal.negate] ((literal :: clause) :: clauses))
      < size ((literal :: clause) :: clauses) := by
  rw [reduce_cons, size_cons]
  have shrinks := size_reduce_le [literal.negate] clauses
  split
  · omega
  · rw [size_cons]
    have shorter := List.length_filter_le
      (fun other : Literal => decide (other.negate ∉ [literal.negate])) clause
    simp only [List.mem_singleton, List.filter_cons, not_true_eq_false, decide_false,
      Bool.false_eq_true, if_false, List.length_cons] at shorter ⊢
    omega

theorem mem_units {clauses : List Clause} {literal : Literal} :
    literal ∈ units clauses ↔ [literal] ∈ clauses := by
  simp only [units, List.mem_filterMap]
  constructor
  · rintro ⟨clause, member, single⟩
    split at single
    · cases single
      exact member
    · cases single
  · intro member
    exact ⟨[literal], member, rfl⟩

theorem size_reduce_units_lt {clauses : List Clause} (single : units clauses ≠ []) :
    size (reduce (units clauses) clauses) < size clauses := by
  obtain ⟨literal, member⟩ := List.exists_mem_of_ne_nil _ single
  exact size_reduce_lt (mem_units.mp member) List.mem_cons_self member

/-- Literals that make every clause true, or nothing when no valuation does. -/
def search (clauses : List Clause) : Option (List Literal) :=
  if _ : units clauses ≠ [] then
    if contradictory (units clauses) then none
    else (search (reduce (units clauses) clauses)).map (units clauses ++ ·)
  else
    match clauses with
    | [] => some []
    | [] :: _ => none
    | (literal :: clause) :: rest =>
      match search (reduce [literal] ((literal :: clause) :: rest)) with
      | some literals => some (literal :: literals)
      | none =>
        (search (reduce [literal.negate] ((literal :: clause) :: rest))).map (literal.negate :: ·)
termination_by size clauses
decreasing_by
  · exact size_reduce_units_lt ‹_›
  · exact size_reduce_lt List.mem_cons_self List.mem_cons_self List.mem_cons_self
  · exact size_reduce_negate_lt literal clause rest

namespace Engine

/-- What there is to satisfy in a call: the assumptions, then the clauses. The newest clauses come
first, so that the search turns away from the models that were excluded last. -/
def obligations (transcript : Transcript) (assumptions : List Literal) : List Clause :=
  assumptions.map (fun literal => [literal]) ++ transcript.clauses.reverse

/-- The greatest variable of a call and of what was sent before. -/
def greatest (transcript : Transcript) (assumptions : List Literal) : Nat :=
  max transcript.variableCount (greatestVariable assumptions)

/-- The engine that searches for a model of the clauses and of the assumptions. Variables that the
search leaves open are false. -/
def searching : Engine where
  answer transcript assumptions :=
    match search (obligations transcript assumptions) with
    | some literals =>
      let marks := Marks.ofList literals
      .satisfiable (.ofValuation (greatest transcript assumptions) fun var =>
        marks.contains (.pos var))
    | none => .unsatisfiable

end Engine

end Argumentation.Sat
