import Argumentation.Sat.Search

/-!
# What the search finds

Literals that the search finds are consistent and reach every clause, so a valuation that makes
them true is a model. Main statements: the searching engine is sound, because its answers come from
such literals, and complete, because a clause set with a model never loses it on the way to both
branches.
-/

namespace Argumentation.Sat

/-- Whether the variable of a literal occurs in some clause. -/
def Occurs (literal : Literal) (clauses : List Clause) : Prop :=
  ∃ clause, clause ∈ clauses ∧ (literal ∈ clause ∨ literal.negate ∈ clause)

/-- Literals over the variables of some clauses that make all of them true, and no two of which are
opposite. -/
structure Solves (literals : List Literal) (clauses : List Clause) : Prop where
  consistent : forall literal, literal ∈ literals -> literal.negate ∉ literals
  reaches : forall clause, clause ∈ clauses -> ∃ literal, literal ∈ clause ∧ literal ∈ literals
  occurs : forall literal, literal ∈ literals -> Occurs literal clauses

theorem mem_reduce {literals : List Literal} {clauses : List Clause} {clause : Clause} :
    clause ∈ reduce literals clauses ↔
      ∃ whole, whole ∈ clauses ∧ (forall literal, literal ∈ whole -> literal ∉ literals) ∧
        clause = whole.filter fun literal => literal.negate ∉ literals := by
  simp only [reduce, List.mem_filterMap, reduceClause_ofList]
  constructor
  · rintro ⟨whole, member, kept⟩
    split at kept
    · cases kept
    · rename_i absent
      exact ⟨whole, member, fun literal inside chosen => absent ⟨literal, inside, chosen⟩,
        (Option.some.inj kept).symm⟩
  · rintro ⟨whole, member, absent, rfl⟩
    refine ⟨whole, member, if_neg ?_⟩
    rintro ⟨literal, inside, chosen⟩
    exact absent literal inside chosen

/-- What is left to satisfy no longer speaks of the variables that were settled. -/
theorem Occurs.of_reduce {literals : List Literal} {clauses : List Clause} {literal : Literal}
    (left : Occurs literal (reduce literals clauses)) :
    Occurs literal clauses ∧ literal ∉ literals ∧ literal.negate ∉ literals := by
  obtain ⟨clause, member, inside⟩ := left
  obtain ⟨whole, listed, absent, rfl⟩ := mem_reduce.mp member
  simp only [List.mem_filter, decide_eq_true_eq, Literal.negate_negate] at inside
  rcases inside with ⟨here, free⟩ | ⟨here, free⟩
  · exact ⟨⟨whole, listed, .inl here⟩, absent literal here, free⟩
  · exact ⟨⟨whole, listed, .inr here⟩, free, absent literal.negate here⟩

/-- Settled literals and a solution of what they leave are a solution together. -/
theorem Solves.append {literals others : List Literal} {clauses : List Clause}
    (consistent : forall literal, literal ∈ literals -> literal.negate ∉ literals)
    (occurs : forall literal, literal ∈ literals -> Occurs literal clauses)
    (rest : Solves others (reduce literals clauses)) : Solves (literals ++ others) clauses where
  consistent literal member := by
    simp only [List.mem_append, not_or]
    rcases List.mem_append.mp member with settled | later
    · refine ⟨consistent literal settled, fun opposite => ?_⟩
      have untouched := (rest.occurs literal.negate opposite).of_reduce.2.2
      rw [Literal.negate_negate] at untouched
      exact untouched settled
    · exact ⟨(rest.occurs literal later).of_reduce.2.2, rest.consistent literal later⟩
  reaches clause member := by
    by_cases settled : ∃ literal, literal ∈ clause ∧ literal ∈ literals
    · obtain ⟨literal, inside, chosen⟩ := settled
      exact ⟨literal, inside, List.mem_append_left _ chosen⟩
    · have left := mem_reduce.mpr ⟨clause, member,
        fun literal inside chosen => settled ⟨literal, inside, chosen⟩, rfl⟩
      obtain ⟨literal, inside, chosen⟩ := rest.reaches _ left
      exact ⟨literal, (List.mem_filter.mp inside).1, List.mem_append_right _ chosen⟩
  occurs literal member := by
    rcases List.mem_append.mp member with settled | later
    · exact occurs literal settled
    · exact (rest.occurs literal later).of_reduce.1

theorem contradictory_eq_false {literals : List Literal} :
    contradictory literals = false ↔
      forall literal, literal ∈ literals -> literal.negate ∉ literals := by
  simp [contradictory, Marks.contains_ofList]

theorem Literal.negate_ne (literal : Literal) : literal.negate ≠ literal := by
  intro same
  simpa [negate] using congrArg Literal.positive same

/-- The literals that the search finds solve the clauses. -/
theorem solves_of_search {clauses : List Clause} {literals : List Literal}
    (found : search clauses = some literals) : Solves literals clauses := by
  fun_induction search clauses generalizing literals with
  | case1 => simp at found
  | case2 clauses _ clear ih =>
    obtain ⟨others, solved, rfl⟩ := Option.map_eq_some_iff.mp found
    refine (ih solved).append (contradictory_eq_false.mp (by simpa using clear)) ?_
    intro literal member
    exact ⟨[literal], mem_units.mp member, .inl List.mem_cons_self⟩
  | case3 =>
    cases found
    exact ⟨by simp, by simp, by simp⟩
  | case4 => simp at found
  | case5 literal clause rest _ others solved ih =>
    cases found
    refine show Solves ([literal] ++ others) _ from .append ?_ ?_ (ih solved)
    · simpa using literal.negate_ne
    · simpa using ⟨literal :: clause, by simp⟩
  | case6 literal clause rest _ _ _ ih =>
    obtain ⟨others, solved, rfl⟩ := Option.map_eq_some_iff.mp found
    refine show Solves ([literal.negate] ++ others) _ from .append ?_ ?_ (ih solved)
    · simpa using literal.negate_ne.symm
    · simpa using ⟨literal :: clause, by simp⟩

/-- A valuation that makes some clauses and some literals true makes true what these literals leave
of the clauses. -/
theorem holds_reduce {valuation : Nat -> Bool} {literals : List Literal} {clauses : List Clause}
    (model : forall clause, clause ∈ clauses -> clause.holds valuation)
    (settled : forall literal, literal ∈ literals -> literal.holds valuation)
    (clause : Clause) (member : clause ∈ reduce literals clauses) : clause.holds valuation := by
  obtain ⟨whole, listed, _, rfl⟩ := mem_reduce.mp member
  obtain ⟨literal, inside, holds⟩ := List.any_eq_true.mp (model whole listed)
  refine List.any_eq_true.mpr ⟨literal, List.mem_filter.mpr ⟨inside, ?_⟩, holds⟩
  simp only [decide_eq_true_eq]
  intro opposite
  simpa [holds] using settled literal.negate opposite

/-- The search finds a solution of clauses that have a model. -/
theorem search_ne_none {valuation : Nat -> Bool} {clauses : List Clause}
    (model : forall clause, clause ∈ clauses -> clause.holds valuation) :
    search clauses ≠ none := by
  have unitsHold : forall {clauses : List Clause},
      (forall clause, clause ∈ clauses -> clause.holds valuation) ->
        forall literal, literal ∈ units clauses -> literal.holds valuation := by
    intro clauses model literal member
    simpa [Clause.holds] using model [literal] (mem_units.mp member)
  fun_induction search clauses with
  | case1 clauses _ clash =>
    have clear : contradictory (units clauses) = false := by
      refine contradictory_eq_false.mpr fun literal member opposite => ?_
      have opposed := unitsHold model literal.negate opposite
      simp [unitsHold model literal member] at opposed
    simp [clear] at clash
  | case2 clauses _ _ ih =>
    simpa using ih (holds_reduce model (unitsHold model))
  | case3 => simp
  | case4 rest =>
    have impossible := model [] List.mem_cons_self
    simp [Clause.holds] at impossible
  | case5 => simp
  | case6 literal clause rest _ failed ih₁ ih₂ =>
    cases value : literal.holds valuation with
    | true =>
      exact absurd failed (ih₁ (holds_reduce model (by simpa using value)))
    | false =>
      simpa using ih₂ (holds_reduce model (by simpa using value))

theorem le_greatestVariable {literals : List Literal} {literal : Literal}
    (member : literal ∈ literals) : literal.var <= greatestVariable literals :=
  (Marks.le_foldl_max literals 0).2 literal member

/-- Consistent literals are true when exactly the variables are that they contain. -/
theorem Solves.holds {literals : List Literal} {clauses : List Clause}
    (solution : Solves literals clauses) {literal : Literal} (member : literal ∈ literals) :
    literal.holds fun var => (Marks.ofList literals).contains (.pos var) := by
  obtain ⟨var, positive⟩ := literal
  cases positive with
  | true => simpa [Literal.holds, Marks.contains_ofList, Literal.pos] using member
  | false =>
    simpa [Literal.holds, Marks.contains_ofList, Literal.pos, Literal.negate] using
      solution.consistent _ member

namespace Engine

theorem var_le_greatest {transcript : Transcript} {assumptions : List Literal}
    {clause : Clause} {literal : Literal} (member : clause ∈ obligations transcript assumptions)
    (inside : literal ∈ clause) : literal.var <= greatest transcript assumptions := by
  rcases List.mem_append.mp member with assumed | sent
  · obtain ⟨assumption, chosen, rfl⟩ := List.mem_map.mp assumed
    obtain rfl := List.mem_singleton.mp inside
    exact Nat.le_trans (le_greatestVariable chosen) (Nat.le_max_right _ _)
  · have flat := List.mem_flatten.mpr ⟨clause, List.mem_reverse.mp sent, inside⟩
    have bounded := le_greatestVariable flat
    simp only [greatest, Transcript.variableCount]
    omega

/-- Satisfiable answers of the search come with a model. -/
theorem searching_sound : searching.Sound := by
  intro transcript assumptions model answered
  simp only [searching] at answered
  split at answered
  · rename_i literals found
    obtain rfl := Verdict.satisfiable.inj answered
    have solution := solves_of_search found
    have reached : forall clause, clause ∈ obligations transcript assumptions ->
        Assignment.satisfies (.ofValuation (greatest transcript assumptions) fun var =>
          (Marks.ofList literals).contains (.pos var)) clause := by
      intro clause member
      obtain ⟨literal, inside, chosen⟩ := solution.reaches clause member
      refine List.any_eq_true.mpr ⟨literal, inside, ?_⟩
      rw [Assignment.makesTrue_ofValuation _ (var_le_greatest member inside)]
      exact solution.holds chosen
    constructor
    · intro clause member
      exact reached clause (List.mem_append_right _ (List.mem_reverse.mpr member))
    · intro literal member
      simpa [Assignment.satisfies] using
        reached [literal] (List.mem_append_left _ (List.mem_map.mpr ⟨literal, member, rfl⟩))
  · cases answered

/-- The search gives up only when there is no model. -/
theorem searching_complete : searching.Complete := by
  intro transcript assumptions
  simp only [searching]
  split
  · exact ⟨Verdict.noConfusion, Verdict.noConfusion⟩
  · rename_i failed
    refine ⟨Verdict.noConfusion, ?_⟩
    rintro _ valuation ⟨clauses, assumed⟩
    have model : forall clause, clause ∈ obligations transcript assumptions ->
        clause.holds valuation := by
      intro clause member
      rcases List.mem_append.mp member with unit | sent
      · obtain ⟨literal, chosen, rfl⟩ := List.mem_map.mp unit
        simpa [Clause.holds] using assumed literal chosen
      · exact clauses clause (List.mem_reverse.mp sent)
    exact search_ne_none model failed

end Engine

end Argumentation.Sat
