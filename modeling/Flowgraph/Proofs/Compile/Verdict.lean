import Flowgraph.Compile.Run
import Flowgraph.Proofs.Analysis.Blame
import Flowgraph.Proofs.Compile.Required
import Flowgraph.Proofs.Graph.Wiring

/-!
# One verdict by two routes

A program is judged twice: by `compile`, which analyzes the graph at once, and by the passes
up to the check for runaway programs, which keep what they have found.  The two agree on
every program (`compile_agrees_with_passes`).

Where a program runs away, `compile` reports the location that the data carries, and the
passes report a span, which is looked up in the source again.  Both name the same place
because a location is that of its own span (`SourceFile.location_span_location`), and what
the data carries is the location of an operator.
-/

namespace Flowgraph

/-! ## The place of a report -/

/-- A position is that of its own offset. -/
theorem SourceFile.position_offset (source : SourceFile) (offset : Nat) :
    source.position (source.position offset).offset = source.position offset := by
  simp [position]

/-- The location of a span is the location of its own span. -/
theorem SourceFile.location_span_location (source : SourceFile) (span : Span) :
    source.location (source.location span).span = source.location span := by
  simp only [location, Location.span, position_offset]

/-- A violation is reported under its code and message, at the place of its provenance. -/
theorem Violation.report_diagnostic (violation : Violation) (source : SourceFile) :
    violation.diagnostic.report source =
      ⟨code.text, violation.message, source.location violation.provenance.span⟩ := by
  have causes : ∀ (hops : List Hop) (diagnostic : Diagnostic),
      (hops.foldl (fun diagnostic hop =>
          diagnostic.withCause hop.description (some hop.location.span)) diagnostic).report source =
        diagnostic.report source := by
    intro hops
    induction hops with
    | nil => exact fun _ => rfl
    | cons hop rest ih => exact fun diagnostic => ih _
  exact causes violation.path _

namespace FlowGraph

/-- The graph of a program is analyzed whatever the program is. -/
theorem exists_analyzed_ofProgram (source : SourceFile) (chains : List (Flow Operator)) :
    ∃ classes, (ofProgram source chains).value.Analyzed classes := by
  have wellFormed := wellFormed_ofProgram source chains
  have acyclic := acyclic_ofProgram source chains
  obtain ⟨classes, found⟩ := propagate?_of_acyclic wellFormed acyclic
  exact ⟨classes, wellFormed, acyclic, found⟩

/-- The graph of a program is analyzed in the order in which its nodes stand. -/
theorem order_eq_range_of_analyzed {source : SourceFile} {chains : List (Flow Operator)}
    {classes : TemporalMap} (analyzed : (ofProgram source chains).value.Analyzed classes) :
    classes.order = List.range (ofProgram source chains).value.size := by
  have visited := order_of_propagate? analyzed.found
  rw [order?_ofProgram, ← size_ofProgram source, Option.some.injEq] at visited
  exact visited.symm

theorem report_of_mem_violations {source : SourceFile} {chains : List (Flow Operator)}
    {classes : TemporalMap} (analyzed : (ofProgram source chains).value.Analyzed classes)
    {violation : Violation}
    (member : violation ∈ (ofProgram source chains).value.violations classes) :
    violation.diagnostic.report source = violation.report := by
  obtain ⟨place, -, reported⟩ := mem_violations.mp member
  obtain ⟨node, blamed, present, -, input, rfl⟩ := violationAt?_eq_some_iff.mp reported
  obtain ⟨giver, inner, path⟩ := exists_blamePath analyzed.wellFormed analyzed.acyclic
    analyzed.solves present (by rw [input]; rfl)
  obtain ⟨blamedNode, blamedPresent, -, rfl⟩ := path.exists_source
  rw [nodes_ofProgram, List.getElem?_map, Option.map_eq_some_iff] at blamedPresent
  obtain ⟨operator, -, rfl⟩ := blamedPresent
  rw [Violation.report_diagnostic, Violation.report, Operator.node,
    source.location_span_location]

end FlowGraph

/-! ## How the passes go -/

/-- The graph of a program, and the errors of its wiring. -/
abbrev Program.built (program : Program) (source : SourceFile) : Checked FlowGraph :=
  FlowGraph.ofProgram source program.operators.value

namespace Compilation

variable {source : SourceFile} {program : Program}

/-- What a compilation has come to. -/
structure EndsWith (state : Compilation) (failed : Option Pass) (found : List Diagnostic)
    (graph : Option FlowGraph) : Prop where
  failedPass : state.failedPass = failed
  diagnostics : state.diagnostics = found
  graph : state.graph = graph

/-- If lowering finds errors, every run ends with them. -/
theorem run_of_lower_errors (source : SourceFile) (errors : program.operators.diagnostics ≠ [])
    (terminal : Pass) :
    EndsWith ((start source program).run false terminal) (some .lower)
      program.operators.diagnostics none := by
  cases terminal <;> constructor <;>
    simp [run, Pass.required_eq_take, Pass.place, Pass.all, runPasses, runPass, perform, finishPass,
      start, errors]

section Lowered

variable (lowered : program.operators.diagnostics = [])

include lowered

/-- If the stages do not fit, every run beyond lowering ends with their errors. -/
theorem run_of_graph_errors (errors : (program.built source).diagnostics ≠ []) (terminal : Pass)
    (later : terminal ≠ .lower) :
    EndsWith ((start source program).run false terminal) (some .buildGraph)
      (program.built source).diagnostics (some (program.built source).value) := by
  cases terminal <;> constructor <;>
    simp_all [run, Pass.required_eq_take, Pass.place, Pass.all, runPasses, runPass, perform,
      finishPass, start]

variable (built : (program.built source).diagnostics = [])

include built

/-- If the stages fit, the pass that builds the graph succeeds. -/
theorem run_buildGraph :
    EndsWith ((start source program).run false .buildGraph) none []
      (some (program.built source).value) := by
  constructor <;>
    simp [run, Pass.required_eq_take, Pass.place, Pass.all, runPasses, runPass, perform, finishPass,
      start, lowered, built]

/-- The check for runaway flows fails exactly if it finds a violation. -/
theorem run_checkRunaway {classes : TemporalMap} {found : List Violation}
    (propagated : (program.built source).value.propagate? = some classes)
    (violations : (program.built source).value.violations classes = found) :
    EndsWith ((start source program).run false .checkRunaway)
      (if found = [] then none else some .checkRunaway) (reported false found)
      (some (program.built source).value) := by
  constructor <;>
    simp [run, Pass.required_eq_take, Pass.place, Pass.all, runPasses, runPass, perform, finishPass,
      start, lowered, built, propagated, violations, reported]

end Lowered

end Compilation

/-! ## What `compile` returns -/

section Compile

variable {source : SourceFile} {program : Program} (parsed : source.program = .ok program)

include parsed

/-- If lowering finds errors, compiling returns them. -/
theorem compile_of_lower_errors (errors : program.operators.diagnostics ≠ []) :
    compile source = .error (.diagnostics program.operators.diagnostics) := by
  have ends := Compilation.run_of_lower_errors source errors .buildGraph
  simp only [compile, parsed, ends.failedPass, ends.diagnostics]

variable (lowered : program.operators.diagnostics = [])

include lowered

/-- If the stages do not fit, compiling returns their errors. -/
theorem compile_of_graph_errors (errors : (program.built source).diagnostics ≠ []) :
    compile source = .error (.diagnostics (program.built source).diagnostics) := by
  have ends := Compilation.run_of_graph_errors lowered errors .buildGraph (by decide)
  simp only [compile, parsed, ends.failedPass, ends.diagnostics]

/-- If the stages fit, compiling returns the graph or the report of its first violation. -/
theorem compile_of_graph (built : (program.built source).diagnostics = []) {classes : TemporalMap}
    (propagated : (program.built source).value.propagate? = some classes) :
    compile source =
      match (program.built source).value.violations classes with
      | [] => .ok (program.built source).value
      | first :: _ => .error (.runaway first.report) := by
  have ends := Compilation.run_buildGraph lowered built
  simp only [compile, parsed, ends.failedPass, ends.graph, FlowGraph.analyze?,
    FlowGraph.findViolations?_eq propagated, Option.map_some]
  cases (program.built source).value.violations classes <;> rfl

end Compile

/-- What is not parsed has errors. -/
theorem SourceFile.ne_nil_of_program_eq_error {source : SourceFile} {found : List Diagnostic}
    (refused : source.program = .error found) : found ≠ [] := by
  unfold program at refused
  split at refused
  · cases refused
  · cases refused
    exact List.cons_ne_nil _ _
  · rename_i result faults notRead notEmpty _
    cases refused
    intro silent
    have noFaults : faults = [] := List.map_eq_nil_iff.mp silent
    cases result with
    | none => exact notEmpty rfl noFaults
    | some program => exact notRead program rfl noFaults

/-- A source compiles exactly if it is parsed and no pass up to the last fails. -/
theorem exists_compile_iff (source : SourceFile) :
    (∃ graph, compile source = .ok graph) ↔
      ∃ program, source.program = .ok program ∧
        ((Compilation.start source program).run false .checkRunaway).failedPass = none := by
  cases parsed : source.program with
  | error found => simp [compile, parsed]
  | ok program =>
      have verdict : ((Compilation.start source program).run false .checkRunaway).failedPass =
          none ↔ ∃ graph, compile source = .ok graph := by
        by_cases lowered : program.operators.diagnostics = []
        · by_cases built : (program.built source).diagnostics = []
          · obtain ⟨classes, analyzed⟩ :=
              FlowGraph.exists_analyzed_ofProgram source program.operators.value
            have compiled := compile_of_graph parsed lowered built analyzed.found
            have ends := Compilation.run_checkRunaway lowered built analyzed.found rfl
            rw [compiled, ends.failedPass]
            cases (program.built source).value.violations classes <;> simp
          · have ends := Compilation.run_of_graph_errors lowered built .checkRunaway (by decide)
            simp [compile_of_graph_errors parsed lowered built, ends.failedPass]
        · have ends := Compilation.run_of_lower_errors source lowered .checkRunaway
          simp [compile_of_lower_errors parsed lowered, ends.failedPass]
      simpa using verdict.symm

/--
`compile` and the passes up to the check for runaway programs come to the same end.  They
succeed with the same graph, stop with the same errors, or report the same runaway program
at the same place.
-/
theorem compile_agrees_with_passes (source : SourceFile) :
    (∀ found, source.program = .error found → compile source = .error (.diagnostics found)) ∧
      ∀ program, source.program = .ok program →
        let state := (Compilation.start source program).run false .checkRunaway
        (state.failedPass = none ↔ ∃ graph, compile source = .ok graph) ∧
        (∀ graph, compile source = .ok graph → state.graph = some graph) ∧
        (state.failedPass = some .lower ∨ state.failedPass = some .buildGraph ↔
          ∃ found, compile source = .error (.diagnostics found)) ∧
        (∀ found, compile source = .error (.diagnostics found) → state.diagnostics = found) ∧
        (state.failedPass = some .checkRunaway ↔
          ∃ report, compile source = .error (.runaway report)) ∧
        ∀ report, compile source = .error (.runaway report) →
          ∃ found, state.diagnostics = [found] ∧ found.report source = report := by
  constructor
  · intro found failed
    simp only [compile, failed]
  intro program parsed state
  by_cases lowered : program.operators.diagnostics = []
  · by_cases built : (program.built source).diagnostics = []
    · obtain ⟨classes, analyzed⟩ :=
        FlowGraph.exists_analyzed_ofProgram source program.operators.value
      have compiled := compile_of_graph parsed lowered built analyzed.found
      cases violations : (program.built source).value.violations classes with
      | nil =>
          have ends : state.EndsWith none [] _ :=
            Compilation.run_checkRunaway lowered built analyzed.found violations
          rw [violations] at compiled
          simp [compiled, ends.failedPass, ends.graph]
      | cons first rest =>
          have ends : state.EndsWith (some .checkRunaway) [first.diagnostic] _ :=
            Compilation.run_checkRunaway lowered built analyzed.found violations
          have report : first.diagnostic.report source = first.report :=
            FlowGraph.report_of_mem_violations analyzed (by simp [violations])
          rw [violations] at compiled
          simp [compiled, ends.failedPass, ends.diagnostics, report]
    · have ends : state.EndsWith (some .buildGraph) _ _ :=
        Compilation.run_of_graph_errors lowered built _ (by decide)
      have compiled := compile_of_graph_errors parsed lowered built
      simp [compiled, ends.failedPass, ends.diagnostics]
  · have ends : state.EndsWith (some .lower) _ _ :=
      Compilation.run_of_lower_errors source lowered .checkRunaway
    have compiled := compile_of_lower_errors parsed lowered
    simp [compiled, ends.failedPass, ends.diagnostics]

/-- Live data without end, which is to be sorted. -/
def endlessSort : SourceFile :=
  .unnamed "emit -to :end:\n| sort x"

theorem compile_endlessSort :
    ∃ program report found, endlessSort.program = .ok program ∧
      compile endlessSort = .error (.runaway report) ∧
      ((Compilation.start endlessSort program).run false .checkRunaway).diagnostics = [found] ∧
      found.report endlessSort = report := by
  have runsAway : (match compile endlessSort with
      | .error (.runaway _) => true
      | _ => false) = true := by
    decide +kernel
  obtain ⟨failing, passing⟩ := compile_agrees_with_passes endlessSort
  cases parsed : endlessSort.program with
  | error found =>
      rw [failing found parsed] at runsAway
      cases runsAway
  | ok program =>
      cases compiled : compile endlessSort with
      | ok graph => simp [compiled] at runsAway
      | error failure =>
          cases failure with
          | runaway report =>
              obtain ⟨-, -, -, -, -, reported⟩ := passing program parsed
              obtain ⟨found, diagnostics, same⟩ := reported report compiled
              exact ⟨program, report, found, rfl, rfl, diagnostics, same⟩
          | _ => simp [compiled] at runsAway

end Flowgraph
