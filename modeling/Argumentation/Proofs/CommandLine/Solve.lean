import Argumentation.Proofs.CommandLine.Steps
import Argumentation.Sat.Search.Models

/-!
# The answers of the solve command

With sound and complete engines and without a time limit, the command prints the answers about the
framework that was read and about what is active after each update line, up to the first line that
cannot be carried out. Which extensions an engine finds first makes no difference.
-/

namespace Argumentation.CommandLine

open Run

/-- The lines of the updates that an invocation refers to; without any it refers to no line. -/
def updateLines (environment : Environment) (invocation : Invocation) :
    Except Text.StreamFault (List Text.Line) :=
  match invocation.value? .updates with
  | none => .ok []
  | some "-" => .ok environment.input
  | some path => environment.file path

/-- An invocation with a problem that can be read and does not ask for any one extension, with an
instance that can be read, with a declared argument at least if the query needs one, without a time
limit and with updates that can be opened. -/
structure IsAccepted (environment : Environment) (invocation : Invocation) (problem : Problem)
    (framework : Framework String) (lines : List Text.Line) : Prop where
  posed : Problem.read ((invocation.value? .problem).getD "") = .ok problem
  asked : problem.query ≠ .computeOne
  given : problem.query = .accept -> ∃ label, invocation.value? .argument = some label
  declared : forall label, invocation.value? .argument = some label ->
    label ∈ framework.arguments.labels
  unlimited : invocation.value? .timeout = none
  read : ∃ source, environment.file ((invocation.value? .input).getD "") = .ok source ∧
    (invocation.format.read source).result = .ok framework
  opened : updateLines environment invocation = .ok lines

section Command

variable {environment : Environment} {invocation : Invocation} {problem : Problem}
  {framework : Framework String} {lines : List Text.Line}

theorem prints_checkArgument {query : Query} {argument : Option String}
    (given : query = .accept -> ∃ label, argument = some label) :
    (checkArgument query argument).Prints [] (.ok ()) := by
  cases query with
  | accept =>
    obtain ⟨label, rfl⟩ := given rfl
    exact prints_pure ()
  | count | enumerate | computeOne => cases argument <;> exact ⟨rfl, rfl⟩

theorem prints_openFile {path : String} {source : List Text.Line}
    (opened : environment.file path = .ok source) :
    (openFile environment path).Prints [] (.ok source) := by
  rw [openFile, opened]
  exact prints_pure source

theorem prints_readInstance {format : InstanceFormat} {path : String} {source : List Text.Line}
    (opened : environment.file path = .ok source)
    (read : (format.read source).result = .ok framework) :
    (readInstance environment format path).Prints [] (.ok framework) := by
  have warned := prints_emit_log ((format.read source).warnings.map fun warning =>
    ⟨.warn, "at line " ++ toString warning.line ++ ": " ++ warning.message⟩)
  rw [List.map_map] at warned
  refine (prints_openFile opened).after (warned.after ?_)
  rw [read]
  exact (prints_pure framework).after ((prints_log _ _).after (prints_pure framework))

theorem prints_checkDeclared (loadable : framework.IsLoadable) {argument : Option String}
    (declared : forall label, argument = some label -> label ∈ framework.arguments.labels)
    {next : Unit -> Run Unit} {texts : List String} {result : Except Stop Unit}
    (prints : (next ()).Prints texts result) :
    (match argument with
      | some label => do
        let checked ← Run.ofExcept <| during .parsingArgument <|
          ((framework.arguments.find label).map fun _ => ()).mapError Report.ofError
        next checked
      | _ => next ()).Prints texts result := by
  cases argument with
  | none => exact prints
  | some label =>
    obtain ⟨_, _, found⟩ := loadable.built.consistent.arguments.find_of_mem (declared label rfl)
    dsimp only
    rw [found]
    exact (prints_pure ()).after prints

theorem prints_loadFramework (loadable : framework.IsLoadable) :
    ∃ solver, (loadFramework framework).Prints [] (.ok solver) ∧ solver.Coherent ∧
      solver.registry = Registry.ofFramework framework := by
  obtain ⟨done, coherent, registry⟩ := DynamicSolver.load_exact loadable
  have loaded : DynamicSolver.empty.load framework =
      (.ok (), (DynamicSolver.empty.load framework).2) := Prod.ext done rfl
  refine ⟨_, ?_, coherent, registry⟩
  rw [loadFramework, loaded]
  exact (prints_emit_log _).after ((prints_pure ()).after (prints_pure _))

/-- The update lines are opened without printing anything. -/
theorem prints_updates {task : Task} {solver : DynamicSolver String} {texts : List String}
    {result : Except Stop Unit} (opened : updateLines environment invocation = .ok lines)
    (prints : (processLines task 1 solver lines).Prints texts result) :
    (match invocation.value? .updates with
      | none => pure ()
      | some "-" => processLines task 1 solver environment.input
      | some path => do
        let lines ← openFile environment path
        processLines task 1 solver lines : Run Unit).Prints texts result := by
  unfold updateLines at opened
  split at opened
  · cases opened
    exact prints
  · cases opened
    exact prints
  · exact (prints_openFile opened).after prints

theorem prints_solve (accepted : IsAccepted environment invocation problem framework lines)
    (sound : environment.engine.Sound) (complete : environment.engine.Complete) :
    let updates := lines.filter fun line => !isBlankLine line
    let start := Registry.ofFramework framework
    ∃ answers result, (solve environment invocation).Prints answers.flatten result ∧
      AnswersUpdates invocation.format problem.query (invocation.value? .argument) start updates
        answers ∧
      EndsAs (afterLines? invocation.format start updates) result := by
  intro updates start
  obtain ⟨source, opened, read⟩ := accepted.read
  have loadable := InstanceFormat.isLoadable_of_read read
  obtain ⟨loaded, loads, coherent, registry⟩ := prints_loadFramework loadable
  let task : Task := ⟨problem.query, invocation.value? .argument, invocation.format,
    ⟨environment.engine, none, environment.clock⟩⟩
  have reliable : task.IsReliable := ⟨accepted.asked, rfl, sound, complete⟩
  have poses : Poses loaded.registry task.query task.argument := by
    intro accepts
    obtain ⟨label, given⟩ := accepted.given accepts
    refine ⟨label, given, ?_⟩
    rw [registry]
    exact accepted.declared label given
  obtain ⟨texts, solver, first, again, same, answered⟩ := prints_answer coherent reliable poses
  -- A query leaves the registry as it is, so the lines start from the framework that was read.
  rw [← same] at poses answered
  obtain ⟨answers, result, others, listed, ends⟩ :=
    prints_processLines again reliable poses lines 1 answered
  refine ⟨texts :: answers, result, ?_, ?_, ?_⟩
  · rw [solve, accepted.posed, accepted.unlimited]
    refine (prints_pure problem).after ((prints_checkArgument accepted.given).after
      ((prints_readInstance opened read).after ?_))
    refine prints_checkDeclared loadable accepted.declared ?_
    exact (prints_pure none).after (loads.after
      (first.andThen (prints_updates accepted.opened others)))
  · rw [same, registry] at listed
    exact listed
  · rw [same, registry] at ends
    exact ends

/-- The command answers for the instance and then for each update line that is not blank, up to the
first one that cannot be read or has a refused patch, and fails then. The answers are about what is
active after the lines so far, so they are the same for all sound and complete engines. -/
theorem solve_answers (accepted : IsAccepted environment invocation problem framework lines)
    (other : Sat.Engine) (sound : environment.engine.Sound ∧ other.Sound)
    (complete : environment.engine.Complete ∧ other.Complete) :
    let updates := lines.filter fun line => !isBlankLine line
    let start := Registry.ofFramework framework
    let run := solve environment invocation
    let again := solve { environment with engine := other } invocation
    again.printed = run.printed ∧
      ∃ answers, run.printed = answers.flatten ∧
        AnswersUpdates invocation.format problem.query (invocation.value? .argument) start updates
          answers ∧
        EndsAs (afterLines? invocation.format start updates) run.result ∧
        EndsAs (afterLines? invocation.format start updates) again.result := by
  intro updates start run again
  have changed : IsAccepted { environment with engine := other } invocation problem framework
      lines := { accepted with }
  obtain ⟨answers, _, ⟨first, rfl⟩, listed, ends⟩ :=
    prints_solve accepted sound.1 complete.1
  obtain ⟨others, _, ⟨second, rfl⟩, listed', ends'⟩ :=
    prints_solve changed sound.2 complete.2
  refine ⟨?_, answers, first, listed, ends, ends'⟩
  exact (second.trans (congrArg List.flatten (listed'.unique listed))).trans first.symm

end Command

/-- A defeated argument that is defended by the first update line; the second one disables the
defender before it is refused. -/
def defended : Environment where
  file path :=
    if path = "instance" then .ok [.ok "arg(a).", .ok "arg(b).", .ok "att(a,b)."]
    else .error .notFound
  input := [.ok "+arg(c):att(c,a).", .ok " ", .ok "-arg(c):att(c,b).", .ok "+att(b,a)."]
  engine := .searching
  clock _ := 0

/-- The question whether the defeated argument is accepted. -/
def whetherAccepted : Invocation where
  command := .solve
  values := [(.input, "instance"), (.reader, "apx"), (.problem, "DC-AD"), (.argument, "b"),
    (.updates, "-")]

theorem solve_answers_defended :
    let patient : Sat.Engine := { Sat.Engine.searching with horizon := 1 }
    (∃ framework lines,
      IsAccepted defended whetherAccepted ⟨.accept, .admissible⟩ framework lines) ∧
      (Sat.Engine.searching.Sound ∧ patient.Sound) ∧
      (Sat.Engine.searching.Complete ∧ patient.Complete) ∧
      (solve defended whetherAccepted).printed = ["NO\n", "YES\n"] ∧
      (solve { defended with engine := patient } whetherAccepted).printed = ["NO\n", "YES\n"] ∧
      ∃ report, (solve defended whetherAccepted).result = .error (.failed report) := by
  intro patient
  have sound : Sat.Engine.searching.Sound ∧ patient.Sound :=
    ⟨Sat.Engine.searching_sound, Sat.Engine.searching_sound⟩
  have complete : Sat.Engine.searching.Complete ∧ patient.Complete :=
    ⟨Sat.Engine.searching_complete, Sat.Engine.searching_complete⟩
  let updates : List Text.Line :=
    [.ok "+arg(c):att(c,a).", .ok "-arg(c):att(c,b).", .ok "+att(b,a)."]
  let start : Registry String :=
    ({} : Registry String).enroll [.argument "a", .argument "b", .attack "a" "b"]
  obtain ⟨framework, lines, accepted, labels, attacks, kept⟩ : ∃ framework lines,
      IsAccepted defended whetherAccepted ⟨.accept, .admissible⟩ framework lines ∧
      framework.arguments.labels = ["a", "b"] ∧ framework.attackList = [("a", "b")] ∧
      lines.filter (fun line => !isBlankLine line) = updates :=
    ⟨_, _, ⟨rfl, by decide, fun _ => ⟨"b", rfl⟩, by rintro _ ⟨⟩; decide, rfl, ⟨_, rfl, rfl⟩, rfl⟩,
      rfl, rfl, rfl⟩
  have same : Registry.ofFramework framework = start := by
    rw [← Registry.enroll_elements, FromScratch.elements, labels, attacks]
    rfl
  obtain ⟨equal, answers, printed, listed, ends, _⟩ :=
    solve_answers accepted patient sound complete
  rw [kept, same] at listed ends
  obtain ⟨later, carried, refused, active, attacking⟩ : ∃ later,
      afterLine? .apx start (.ok "+arg(c):att(c,a).") = some later ∧
      afterLine? .apx later (.ok "-arg(c):att(c,b).") = none ∧
      later.activeLabels = ["a", "b", "c"] ∧ later.activeAttacks = [("a", "b"), ("c", "a")] :=
    ⟨_, rfl, by decide +kernel, by decide +kernel, by decide +kernel⟩
  have outside : ¬ ∃ extension, start.IsExtension extension ∧ "b" ∈ extension := by
    rintro ⟨extension, ⟨_, admissible⟩, inside⟩
    obtain ⟨defender, attack, _⟩ := admissible.defended "a" "b" (by decide +kernel) inside
    have only : (defender, "a") ∈ [("a", "b")] := attack
    simp at only
  have inside : later.IsExtension ["b", "c"] := by
    rw [Registry.IsExtension, active, attacking]
    refine ⟨by decide, by simp, fun attacker attacked attack => ?_,
      fun attacker attacked attack member => ?_⟩
    · simp only [List.mem_cons, Prod.mk.injEq, List.not_mem_nil, or_false] at attack
      rcases attack with ⟨rfl, rfl⟩ | ⟨rfl, rfl⟩ <;> decide
    · simp only [List.mem_cons, Prod.mk.injEq, List.not_mem_nil, or_false] at attack
      rcases attack with ⟨rfl, rfl⟩ | ⟨rfl, rfl⟩
      · exact ⟨"c", by decide, by decide⟩
      · exact absurd member (by decide)
  have expected : AnswersUpdates .apx .accept (some "b") start updates [["NO\n"], ["YES\n"]] :=
    .cons (.rejected outside) carried
      (.fault (.accepted ⟨["b", "c"], inside, by decide⟩) refused _)
  rw [listed.unique expected] at printed
  exact ⟨⟨framework, lines, accepted⟩, sound, complete, printed, equal.trans printed, ends⟩

end Argumentation.CommandLine
