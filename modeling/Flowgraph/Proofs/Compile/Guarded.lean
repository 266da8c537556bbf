import Flowgraph.Proofs.Analysis.Guarded
import Flowgraph.Proofs.Compile.Composition
import Flowgraph.Proofs.Graph.Guarded
import Flowgraph.Proofs.Program.Guarded
import Flowgraph.Proofs.Time.Guarded

/-!
# Compilations without a failure

A guarded compilation does what a compilation does, and gives nothing where something that is
looked up is not there: a part of the text, a node, a class, or what an earlier pass has made.
A compilation of any text goes through without such a failure (`compilation_never_fails`).

What carries the proof is that all places stem from the text: those of a program are made of
tokens, those of the operators are those of calls, and all errors point to one of them.
-/

namespace Flowgraph

/-! ## Guarded compilations -/

/-- The program of a source text, or all faults of the text. -/
def SourceFile.guardedProgram (source : SourceFile) :
    Option (Except (List Diagnostic) Program) := do
  match ← guardedParse source.characters with
  | ⟨some program, []⟩ => return .ok program
  | ⟨none, []⟩ =>
      return .error [.error .parseError (.empty source.length) "could not parse program"]
  | ⟨_, faults⟩ => return .error (faults.map ParseFault.diagnostic)

/-- The moment that an option gives, if it can be read. -/
def ProcOption.guardedMoment (option : ProcOption) : Option (Option Moment) :=
  match option.value with
  | .moment text _ => Moment.guardedRead text.toList
  | _ => some none

/-- The operators of a program, if all of its moments can be read. -/
def Program.guardedOperators (program : Program) : Option (Checked (List (Flow Operator))) := do
  let options := (Stage.branchSteps program.chains).flatMap ProcCall.options
  let _ ← options.mapM ProcOption.guardedMoment
  return program.operators

namespace Compilation

/-- What a pass makes of what is there, if everything that it needs is there. -/
def guardedPerform (allViolations : Bool) (state : Compilation) :
    Pass → Option (Compilation × List Diagnostic)
  | .lower => do
      let result ← state.program.guardedOperators
      return ({ state with lowered := some result.value }, result.diagnostics)
  | .buildGraph => do
      let result ← FlowGraph.guardedOfProgram state.source (← state.lowered)
      return ({ state with
          graph := some result.value
          fingerprint := some (.ofGraph state.source.text result.value) },
        result.diagnostics)
  | .propagate => do
      let classes ← (← state.graph).guardedPropagate
      return ({ state with classes := some classes }, [])
  | .checkRunaway => do
      let found ← (← state.graph).guardedViolations (← state.classes)
      return ({ state with violations := some found }, reported allViolations found)

/-- Run a pass and note what it reports, if it does not fail. -/
def guardedRunPass (allViolations : Bool) (state : Compilation) (pass : Pass) :
    Option Compilation := do
  let (next, found) ← state.guardedPerform allViolations pass
  return next.finishPass pass found

/-- Run passes in order up to the first with errors, if none of them fails. -/
def guardedRunPasses (allViolations : Bool) (state : Compilation) :
    List Pass → Option Compilation
  | [] => some state
  | pass :: rest => do
      let next ← state.guardedRunPass allViolations pass
      if next.failedPass.isSome then return next
      else next.guardedRunPasses allViolations rest

/-- Run all passes that a pass requires, and the pass itself, if none of them fails. -/
def guardedRun (allViolations : Bool) (terminal : Pass) (state : Compilation) :
    Option Compilation :=
  state.guardedRunPasses allViolations terminal.required

end Compilation

/-! ## Reading the text -/

theorem SourceFile.guardedProgram_eq (source : SourceFile) :
    source.guardedProgram = some source.program := by
  rw [guardedProgram, guardedParse_eq, program]
  simp only [Option.bind_eq_bind, Option.bind_some]
  cases parse source.characters with
  | mk read faults => cases read <;> cases faults <;> rfl

theorem Diagnostic.within_error {text : List Char} {span : Span} (within : span.Within text)
    (code : DiagnosticCode) (message : String) :
    (Diagnostic.error code span message).Within text := by
  simpa [Within, error, spans] using within

/-- The faults of a text are reported where they stand. -/
theorem within_of_program_error {source : SourceFile} {found : List Diagnostic}
    (failed : source.program = .error found) :
    ∀ diagnostic ∈ found, diagnostic.Within source.characters := by
  rw [SourceFile.program] at failed
  split at failed
  · cases failed
  · cases failed
    rw [List.forall_mem_singleton]
    exact Diagnostic.within_error (empty_within source.characters) _ _
  · next read faults _ _ parsed =>
      cases failed
      intro diagnostic member
      obtain ⟨fault, isFault, rfl⟩ := List.mem_map.mp member
      have isFaultOf : fault ∈ (parse source.characters).faults := parsed ▸ isFault
      exact Diagnostic.within_error (faults_within isFaultOf) _ _

theorem ProcOption.guardedMoment_eq (option : ProcOption) :
    option.guardedMoment = some option.value.moment? := by
  rw [guardedMoment]
  cases option.value <;> first | rfl | exact Moment.guardedRead_eq _

theorem Program.guardedOperators_eq (program : Program) :
    program.guardedOperators = some program.operators := by
  have moments : ((Stage.branchSteps program.chains).flatMap ProcCall.options).mapM
      ProcOption.guardedMoment = some _ := mapM_eq_some_map fun option _ => option.guardedMoment_eq
  rw [guardedOperators]
  simp only [moments, Option.bind_eq_bind, Option.bind_some]
  rfl

/-! ## What a text gives to the passes -/

/-- A program all of whose places are in a text, and that does not have too many calls for it. -/
structure Program.StemsFrom (program : Program) (source : SourceFile) : Prop where
  small : source.length < lengthLimit
  spans : ∀ span ∈ program.spans, span.Within source.characters
  calls : (Stage.branchSteps program.chains).length ≤ source.length

/-- There are no more calls than bytes, since no two calls begin at the same byte. -/
theorem length_calls_le {text : List Char} {program : Program}
    (parsed : parse text = ⟨some program, []⟩) :
    (Stage.branchSteps program.chains).length ≤ Text.byteLength text := by
  have distinct : ((Stage.branchSteps program.chains).map fun call => call.span.start).Nodup :=
    List.pairwise_map.mpr ((pairwise_starts_of_parse parsed).imp Nat.ne_of_lt)
  have bounded : ((Stage.branchSteps program.chains).map fun call => call.span.start) ⊆
      List.range (Text.byteLength text) := by
    intro start member
    obtain ⟨call, isCall, rfl⟩ := List.mem_map.mp member
    exact List.mem_range.mpr (start_lt_of_mem_calls parsed isCall)
  simpa using (distinct.subperm bounded).length_le

theorem stemsFrom_of_program_ok {source : SourceFile} {program : Program}
    (small : source.length < lengthLimit) (parsed : source.program = .ok program) :
    program.StemsFrom source := by
  have read := SourceFile.program_eq_ok_iff.mp parsed
  exact ⟨small, spans_within_of_parse (by rw [read]), length_calls_le read⟩

/-- Between two characters of a text, the location of a span is at the span itself. -/
theorem SourceFile.span_location {source : SourceFile} {span : Span}
    (within : span.Within source.characters) : (source.location span).span = span := by
  have stop : min span.stop source.length = span.stop := min_eq_left within.bounded
  have start : min span.start source.length = span.start :=
    min_eq_left (within.ordered.trans within.bounded)
  simp only [location, Location.span, position, start, stop]

namespace Program.StemsFrom

variable {source : SourceFile} {program : Program} (stems : program.StemsFrom source)

include stems

theorem operators_within :
    ∀ operator ∈ Stage.branchSteps program.operators.value,
      operator.span.Within source.characters :=
  fun _ member => stems.spans _ (span_mem_of_mem_operators member)

theorem size_le : (program.built source).value.size ≤ source.length := by
  have operators := (spans_operators_sublist program).length_le
  rw [List.length_map, List.length_map] at operators
  rw [FlowGraph.size_ofProgram]
  exact operators.trans stems.calls

theorem guardedOfProgram_eq :
    FlowGraph.guardedOfProgram source program.operators.value = some (program.built source) := by
  apply FlowGraph.guardedOfProgram_eq stems.small stems.operators_within
  have size := stems.size_le
  have small := stems.small
  rw [FlowGraph.size_ofProgram] at size
  simp only [lengthLimit, wordLimit] at small ⊢
  omega

theorem nodes_within :
    ∀ node ∈ (program.built source).value.nodes, node.location.span.Within source.characters := by
  intro node member
  rw [FlowGraph.nodes_ofProgram] at member
  obtain ⟨operator, isOperator, rfl⟩ := List.mem_map.mp member
  have within := stems.operators_within operator isOperator
  rw [Operator.node, SourceFile.span_location within]
  exact within

/-- Errors that point to parts of the program point into the text. -/
theorem within_of_pointsTo {α : Type} {check : Checked α}
    (points : Checked.PointsTo program.spans check) :
    ∀ diagnostic ∈ check.diagnostics, diagnostic.Within source.characters :=
  fun diagnostic member span isPlace => stems.spans span (points diagnostic member span isPlace)

end Program.StemsFrom

/-! ## Running the passes -/

namespace Compilation

/-- What has been made after some passes, and where everything that was reported stands. -/
structure Reached (source : SourceFile) (program : Program) (done : List Pass)
    (state : Compilation) : Prop where
  ofSource : state.source = source
  ofProgram : state.program = program
  lowered : .lower ∈ done → state.lowered = some program.operators.value
  wired : .buildGraph ∈ done → state.graph = some (program.built source).value
  propagated : .propagate ∈ done → state.classes = (program.built source).value.propagate?
  graph : ∀ graph, state.graph = some graph → graph = (program.built source).value
  within : ∀ diagnostic ∈ state.diagnostics, diagnostic.Within source.characters

variable {source : SourceFile} {program : Program} {done : List Pass} {state : Compilation}

theorem reached_start : Reached source program [] (start source program) where
  ofSource := rfl
  ofProgram := rfl
  lowered := by simp
  wired := by simp
  propagated := by simp
  graph := by simp [start]
  within := by simp [start]

/-- What a pass makes is noted before what it reports. -/
theorem diagnostics_perform (allViolations : Bool) (state : Compilation) (pass : Pass) :
    (state.perform allViolations pass).1.diagnostics = state.diagnostics := by
  cases pass with
  | lower => rfl
  | buildGraph => simp only [perform]; cases state.lowered <;> rfl
  | propagate => simp only [perform]; cases state.graph <;> rfl
  | checkRunaway => simp only [perform]; cases state.graph <;> cases state.classes <;> rfl

/-- What a pass reports comes after what has been reported before. -/
theorem diagnostics_runPass (allViolations : Bool) (state : Compilation) (pass : Pass) :
    (state.runPass allViolations pass).diagnostics =
      state.diagnostics ++ (state.perform allViolations pass).2 := by
  simp only [runPass, finishPass, diagnostics_perform]

section Passes

variable (stems : program.StemsFrom source) (allViolations : Bool)

include stems

/-- A pass whose inputs have been made does not fail. -/
theorem Reached.guardedPerform_eq (reached : Reached source program done state) {pass : Pass}
    (ready : ∀ input ∈ pass.inputs, input ∈ done) :
    state.guardedPerform allViolations pass = some (state.perform allViolations pass) := by
  have wellFormed := FlowGraph.wellFormed_ofProgram source program.operators.value
  have forward := FlowGraph.forward_ofProgram source program.operators.value
  obtain ⟨classes, analyzed⟩ := FlowGraph.exists_analyzed_ofProgram source program.operators.value
  cases pass with
  | lower =>
      rw [guardedPerform, Program.guardedOperators_eq]
      rfl
  | buildGraph =>
      have lowered := reached.lowered (ready .lower (by decide))
      simp only [guardedPerform, perform, lowered, reached.ofSource, Option.bind_eq_bind,
        Option.bind_some, stems.guardedOfProgram_eq]
      rfl
  | propagate =>
      have graph := reached.wired (ready .buildGraph (by decide))
      have propagated := FlowGraph.guardedPropagate_eq wellFormed forward
      simp only [guardedPerform, perform, graph, Option.bind_eq_bind, Option.bind_some, propagated,
        analyzed.found]
      rfl
  | checkRunaway =>
      have graph := reached.wired (ready .buildGraph (by decide))
      have isClasses := (reached.propagated (ready .propagate (by decide))).trans analyzed.found
      have violations := FlowGraph.guardedViolations_eq wellFormed forward
        (FlowGraph.fits_of_propagate? analyzed.found) fun place => analyzed.lt_size
      simp only [guardedPerform, perform, graph, isClasses, Option.bind_eq_bind, Option.bind_some,
        violations]
      rfl

/-- What a pass reports stands in the text. -/
theorem Reached.perform_within (reached : Reached source program done state) {pass : Pass}
    (ready : ∀ input ∈ pass.inputs, input ∈ done) :
    ∀ diagnostic ∈ (state.perform allViolations pass).2,
      diagnostic.Within source.characters := by
  obtain ⟨classes, analyzed⟩ := FlowGraph.exists_analyzed_ofProgram source program.operators.value
  cases pass with
  | lower =>
      simp only [perform, reached.ofProgram]
      exact stems.within_of_pointsTo program.operators_pointTo
  | buildGraph =>
      have lowered := reached.lowered (ready .lower (by decide))
      simp only [perform, lowered, reached.ofSource]
      exact stems.within_of_pointsTo
        (FlowGraph.ofProgram_pointsTo source fun _ => span_mem_of_mem_operators)
  | propagate =>
      simp only [perform]
      split <;> simp
  | checkRunaway =>
      have graph := reached.wired (ready .buildGraph (by decide))
      have isClasses := (reached.propagated (ready .propagate (by decide))).trans analyzed.found
      simp only [perform, graph, isClasses]
      intro diagnostic member span isPlace
      obtain ⟨violation, isViolation, rfl⟩ := List.mem_map.mp member
      have found : violation ∈ (program.built source).value.violations classes := by
        split_ifs at isViolation
        · exact isViolation
        · exact List.mem_of_mem_take isViolation
      obtain ⟨node, isNode, rfl⟩ := List.mem_map.mp
        (FlowGraph.diagnostic_spans_subset analyzed found isPlace)
      exact stems.nodes_within node isNode

/-- After a pass there is what the pass makes, besides what was there before. -/
theorem Reached.runPass (reached : Reached source program done state) {pass : Pass}
    (ready : ∀ input ∈ pass.inputs, input ∈ done) :
    Reached source program (pass :: done) (state.runPass allViolations pass) := by
  have within : ∀ diagnostic ∈ (state.runPass allViolations pass).diagnostics,
      diagnostic.Within source.characters := by
    rw [diagnostics_runPass, List.forall_mem_append]
    exact ⟨reached.within, reached.perform_within stems allViolations ready⟩
  obtain ⟨classes, analyzed⟩ := FlowGraph.exists_analyzed_ofProgram source program.operators.value
  cases pass with
  | lower =>
      refine ⟨reached.ofSource, reached.ofProgram, ?_, ?_, ?_, reached.graph, within⟩
      · intro _
        simp only [Compilation.runPass, finishPass, perform, reached.ofProgram]
      · exact fun member => reached.wired (by simpa using member)
      · exact fun member => reached.propagated (by simpa using member)
  | buildGraph =>
      have lowered := reached.lowered (ready .lower (by decide))
      simp only [Compilation.runPass, finishPass, perform, lowered, reached.ofSource] at within ⊢
      refine ⟨rfl, reached.ofProgram, fun _ => rfl, fun _ => rfl, ?_, ?_, within⟩
      · exact fun member => reached.propagated (by simpa using member)
      · intro graph made
        exact (Option.some.inj made).symm
  | propagate =>
      have wired := reached.wired (ready .buildGraph (by decide))
      simp only [Compilation.runPass, finishPass, perform, wired] at within ⊢
      refine ⟨reached.ofSource, reached.ofProgram, ?_, fun _ => rfl, fun _ => rfl, ?_, within⟩
      · exact fun member => reached.lowered (by simpa using member)
      · intro graph made
        exact (Option.some.inj made).symm
  | checkRunaway =>
      have wired := reached.wired (ready .buildGraph (by decide))
      have isClasses := (reached.propagated (ready .propagate (by decide))).trans analyzed.found
      simp only [Compilation.runPass, finishPass, perform, wired, isClasses] at within ⊢
      refine ⟨reached.ofSource, reached.ofProgram, ?_, fun _ => rfl, fun _ => analyzed.found.symm,
        ?_, within⟩
      · exact fun member => reached.lowered (by simpa using member)
      · intro graph made
        exact (Option.some.inj made).symm

end Passes

/-- Passes in a proper order do not fail, and what they report stands in the text. -/
theorem Reached.runPasses (stems : program.StemsFrom source) (allViolations : Bool)
    (reached : Reached source program done state) {passes : List Pass}
    (ordered : Pass.InputsFirst done passes) :
    state.guardedRunPasses allViolations passes = some (state.runPasses allViolations passes) ∧
      ∃ more, Reached source program more (state.runPasses allViolations passes) := by
  induction passes generalizing done state with
  | nil => exact ⟨rfl, done, reached⟩
  | cons pass rest ih =>
      obtain ⟨ready, orderedRest⟩ := ordered
      have next := reached.runPass stems allViolations ready
      have guarded : state.guardedRunPass allViolations pass =
          some (state.runPass allViolations pass) := by
        rw [guardedRunPass, reached.guardedPerform_eq stems allViolations ready]
        rfl
      simp only [guardedRunPasses, guarded, Compilation.runPasses, Option.bind_eq_bind,
        Option.bind_some]
      split_ifs
      · exact ⟨rfl, pass :: done, next⟩
      · exact ih next orderedRest

end Compilation

/-! ## Nothing fails -/

/-- A diagnostic that points into the text and is shown and reported without a failure. -/
structure Diagnostic.Shows (source : SourceFile) (diagnostic : Diagnostic) : Prop where
  within : diagnostic.Within source.characters
  render : diagnostic.guardedRender source = some (diagnostic.render source)
  report : diagnostic.guardedReport source = some (diagnostic.report source)

theorem Diagnostic.Within.shows {source : SourceFile} {diagnostic : Diagnostic}
    (within : diagnostic.Within source.characters) (small : source.length < lengthLimit) :
    diagnostic.Shows source :=
  ⟨within, guardedRender_eq small within, guardedReport_eq small within⟩

/--
A graph that the analyses can go through: its nodes are numbered by words of 32 bits and
stand in the text, its edges join them without a cycle, and they are visited in an order.
-/
structure FlowGraph.Passable (source : SourceFile) (graph : FlowGraph) : Prop where
  numbered : graph.size < wordLimit
  within : ∀ node ∈ graph.nodes, node.location.span.Within source.characters
  wellFormed : graph.WellFormed
  acyclic : graph.Acyclic
  order : ∃ order, graph.order? = some order ∧ ∀ place ∈ order, place < graph.size

theorem Program.StemsFrom.passable {source : SourceFile} {program : Program}
    (stems : program.StemsFrom source) : (program.built source).value.Passable source where
  numbered := by
    have size := stems.size_le
    have small := stems.small
    simp only [lengthLimit, wordLimit] at small ⊢
    omega
  within := stems.nodes_within
  wellFormed := FlowGraph.wellFormed_ofProgram source program.operators.value
  acyclic := FlowGraph.acyclic_ofProgram source program.operators.value
  order := by
    refine ⟨_, FlowGraph.order?_ofProgram source program.operators.value, ?_⟩
    intro place member
    rw [FlowGraph.size_ofProgram]
    exact List.mem_range.mp member

/--
Nothing fails on any text of less than `2 ^ 31` bytes, whatever its name, the last pass and
the violations that are asked for.  The text is read and the passes run without a failure;
all parts of a program, all nodes, and all places that an error points to are in the text;
every error is shown and reported; and the graph can be gone through.  No moment of any text
leaves the range of a word.
-/
theorem compilation_never_fails (source : SourceFile) (small : source.length < lengthLimit)
    (terminal : Pass) (allViolations : Bool) :
    source.guardedProgram = some source.program ∧
      (∀ found, source.program = .error found → ∀ diagnostic ∈ found, diagnostic.Shows source) ∧
      (∀ program, (parse source.characters).program = some program →
        ∀ span ∈ program.spans, span.Within source.characters) ∧
      (∀ program, source.program = .ok program →
        let state := (Compilation.start source program).run allViolations terminal
        (Compilation.start source program).guardedRun allViolations terminal = some state ∧
          (∀ diagnostic ∈ state.diagnostics, diagnostic.Shows source) ∧
          ∀ graph, state.graph = some graph → graph.Passable source) ∧
      ∀ text, Moment.guardedRead text = some (Moment.read? text) := by
  refine ⟨source.guardedProgram_eq, ?_, fun program => spans_within_of_parse, ?_,
    Moment.guardedRead_eq⟩
  · intro found failed diagnostic member
    exact (within_of_program_error failed diagnostic member).shows small
  · intro program parsed state
    have stems := stemsFrom_of_program_ok small parsed
    obtain ⟨guarded, done, reached⟩ := Compilation.reached_start.runPasses stems allViolations
      (Pass.inputsFirst_required terminal)
    refine ⟨guarded, ?_, ?_⟩
    · intro diagnostic member
      exact (reached.within diagnostic member).shows small
    · intro graph made
      rw [reached.graph graph made]
      exact stems.passable

/-- Live data without end before `tail`, with a character of three bytes between them. -/
def endlessTail : SourceFile :=
  .unnamed "emit -to :end: // \u221e\n| tail"

theorem compilation_of_endlessTail :
    endlessTail.length < lengthLimit ∧
      ∃ program found, endlessTail.program = .ok program ∧
        ((Compilation.start endlessTail program).run true .checkRunaway).diagnostics = [found] ∧
        (Compilation.start endlessTail program).guardedRun true .checkRunaway =
          some ((Compilation.start endlessTail program).run true .checkRunaway) ∧
        found.Shows endlessTail := by
  have small : endlessTail.length < lengthLimit := by decide +kernel
  have reports : (match endlessTail.program with
      | .ok program =>
          ((Compilation.start endlessTail program).run true .checkRunaway).diagnostics.length
      | .error _ => 0) = 1 := by
    decide +kernel
  obtain ⟨-, -, -, runs, -⟩ := compilation_never_fails endlessTail small .checkRunaway true
  cases parsed : endlessTail.program with
  | error found => simp [parsed] at reports
  | ok program =>
      rw [parsed] at reports
      obtain ⟨found, only⟩ := List.length_eq_one_iff.mp reports
      obtain ⟨guarded, shows, -⟩ := runs program parsed
      exact ⟨small, program, found, rfl, only, guarded, shows found (by rw [only]; simp)⟩

end Flowgraph
