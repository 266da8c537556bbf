import Flowgraph.Proofs.Compile.Guarded

/-!
# How far a compilation gets

The passes of a compilation all work on one state, and each of them can stop it.  What the
state holds in the end depends on nothing but the passes that have run: the results of these
passes, also of one that failed, and what each of them reported (`run_eq`).  The passes that
have run are a first part of those that the last pass requires, up to the first with errors.

So a compilation that goes on to a later pass keeps all results (`run_keeps_artifacts`).
-/

namespace Flowgraph

/-! ## Up to the first failure -/

namespace Pass

/-- The passes of a list up to the first that fails, which is one of them. -/
def upToFailure (fails : Pass → Bool) : List Pass → List Pass
  | [] => []
  | pass :: rest => pass :: if fails pass then [] else upToFailure fails rest

variable {fails : Pass → Bool}

theorem upToFailure_prefix (passes : List Pass) : upToFailure fails passes <+: passes := by
  induction passes with
  | nil => exact List.prefix_rfl
  | cons pass rest ih =>
      rw [upToFailure, List.prefix_cons_inj]
      split_ifs
      · exact List.nil_prefix
      · exact ih

/-- No pass fails but the last one; if that one does not fail either, all of them are run. -/
theorem exists_last_upToFailure (fails : Pass → Bool) {passes : List Pass}
    (nonempty : passes ≠ []) :
    ∃ front last, upToFailure fails passes = front ++ [last] ∧
      (∀ pass ∈ front, fails pass = false) ∧
      (fails last = false → upToFailure fails passes = passes) := by
  induction passes with
  | nil => exact absurd rfl nonempty
  | cons pass rest ih =>
      rw [upToFailure]
      split_ifs with failed
      · exact ⟨[], pass, rfl, by simp, fun passed => absurd failed (by simp [passed])⟩
      · rcases eq_or_ne rest [] with rfl | more
        · exact ⟨[], pass, rfl, by simp, fun _ => rfl⟩
        · obtain ⟨front, last, isLast, passed, complete⟩ := ih more
          refine ⟨pass :: front, last, by rw [isLast, List.cons_append], ?_, ?_⟩
          · exact List.forall_mem_cons.mpr ⟨Bool.eq_false_iff.mpr failed, passed⟩
          · exact fun lastPassed => congrArg _ (complete lastPassed)

/-- With more passes to come, those that would run without them run all the same. -/
theorem upToFailure_mono {shorter longer : List Pass} (shorterPrefix : shorter <+: longer) :
    upToFailure fails shorter <+: upToFailure fails longer := by
  induction shorter generalizing longer with
  | nil => exact List.nil_prefix
  | cons pass rest ih =>
      obtain ⟨others, rfl⟩ := shorterPrefix
      rw [List.cons_append, upToFailure, upToFailure, List.prefix_cons_inj]
      split_ifs
      · exact List.prefix_rfl
      · exact ih (List.prefix_append rest others)

theorem required_ne_nil (terminal : Pass) : terminal.required ≠ [] :=
  List.ne_nil_of_mem (mem_required_self terminal)

end Pass

/-! ## What a pass makes and reports -/

/-- The errors that a pass reports on a program. -/
def Program.errors (program : Program) (source : SourceFile) (allViolations : Bool) :
    Pass → List Diagnostic
  | .lower => program.operators.diagnostics
  | .buildGraph => (program.built source).diagnostics
  | .propagate => []
  | .checkRunaway =>
      Compilation.reported allViolations ((program.built source).value.findViolations?.getD [])

/-- Whether a pass reports errors; for this it does not matter if it reports all of them. -/
def Program.fails (program : Program) (source : SourceFile) (pass : Pass) : Bool :=
  !(program.errors source true pass).isEmpty

namespace Compilation

theorem reported_isEmpty (allViolations : Bool) (found : List Violation) :
    (reported allViolations found).isEmpty = found.isEmpty := by
  cases allViolations <;> cases found <;> rfl

variable (source : SourceFile) (program : Program) (allViolations : Bool)

theorem errors_isEmpty (pass : Pass) :
    (program.errors source allViolations pass).isEmpty = !program.fails source pass := by
  cases pass <;> simp [Program.fails, Program.errors, reported_isEmpty]

/-- A compilation after some passes: what each of them makes is there, and nothing else. -/
def afterPasses (done : List Pass) : Compilation where
  source := source
  program := program
  lowered := if .lower ∈ done then some program.operators.value else none
  graph := if .buildGraph ∈ done then some (program.built source).value else none
  fingerprint :=
    if .buildGraph ∈ done then some (.ofGraph source.text (program.built source).value) else none
  classes := if .propagate ∈ done then (program.built source).value.propagate? else none
  violations :=
    if .checkRunaway ∈ done then (program.built source).value.findViolations? else none
  reports := done.map fun pass => (pass, program.errors source allViolations pass)
  diagnostics := done.flatMap (program.errors source allViolations)
  hasError := done.any (program.fails source)
  failedPass := done.find? (program.fails source)

variable {source program} {done : List Pass}

/-- If its inputs are there, a pass adds what it makes and leaves the rest as it is. -/
theorem perform_afterPasses {pass : Pass} (ready : ∀ input ∈ pass.inputs, input ∈ done) :
    (afterPasses source program allViolations done).perform allViolations pass =
      ({ afterPasses source program allViolations (done ++ [pass]) with
          reports := (afterPasses source program allViolations done).reports
          diagnostics := (afterPasses source program allViolations done).diagnostics
          hasError := (afterPasses source program allViolations done).hasError
          failedPass := (afterPasses source program allViolations done).failedPass },
        program.errors source allViolations pass) := by
  obtain ⟨classes, analyzed⟩ := FlowGraph.exists_analyzed_ofProgram source program.operators.value
  cases pass with
  | lower =>
      simp [perform, afterPasses, Program.errors]
  | buildGraph =>
      have lowered : Pass.lower ∈ done := ready .lower (by decide)
      simp [perform, afterPasses, Program.errors, lowered]
  | propagate =>
      have wired : Pass.buildGraph ∈ done := ready .buildGraph (by decide)
      simp [perform, afterPasses, Program.errors, wired]
  | checkRunaway =>
      have wired : Pass.buildGraph ∈ done := ready .buildGraph (by decide)
      have propagated : Pass.propagate ∈ done := ready .propagate (by decide)
      have found := FlowGraph.findViolations?_eq analyzed.found
      simp [perform, afterPasses, Program.errors, wired, propagated, analyzed.found, found]

/-- A pass adds what it makes and what it reports, if no pass before it has failed. -/
theorem runPass_afterPasses {pass : Pass} (ready : ∀ input ∈ pass.inputs, input ∈ done)
    (passed : done.find? (program.fails source) = none) :
    (afterPasses source program allViolations done).runPass allViolations pass =
      afterPasses source program allViolations (done ++ [pass]) := by
  have failed : (done ++ [pass]).find? (program.fails source) =
      if (program.errors source allViolations pass).isEmpty then none else some pass := by
    rw [List.find?_append, passed, Option.none_or, errors_isEmpty]
    cases fails : program.fails source pass <;> simp [fails]
  rw [runPass, perform_afterPasses allViolations ready]
  simp only [finishPass, afterPasses, List.map_append, List.map_singleton, List.flatMap_append,
    List.flatMap_singleton, List.any_append, List.any_cons, List.any_nil, Bool.or_false, failed,
    errors_isEmpty, Bool.not_not]

/-- Passes in a proper order come to what all of them up to the first failure make. -/
theorem runPasses_afterPasses {passes : List Pass} (ordered : Pass.InputsFirst done passes)
    (passed : done.find? (program.fails source) = none) :
    (afterPasses source program allViolations done).runPasses allViolations passes =
      afterPasses source program allViolations
        (done ++ Pass.upToFailure (program.fails source) passes) := by
  induction passes generalizing done with
  | nil => rw [Pass.upToFailure, List.append_nil, runPasses]
  | cons pass rest ih =>
      obtain ⟨ready, later⟩ := ordered
      have failed : (afterPasses source program allViolations (done ++ [pass])).failedPass.isSome =
          program.fails source pass := by
        simp only [afterPasses, List.find?_append, passed, Option.none_or]
        cases fails : program.fails source pass <;> simp [fails]
      simp only [runPasses, runPass_afterPasses allViolations ready passed, failed,
        Pass.upToFailure]
      split_ifs with fails
      · rfl
      · have orderedRest : Pass.InputsFirst (done ++ [pass]) rest :=
          later.mono (by simp)
        rw [ih orderedRest (by simp [passed, fails]), List.append_assoc, List.singleton_append]

end Compilation

/-- The passes that run for a program when a pass is asked for. -/
def Program.called (program : Program) (source : SourceFile) (terminal : Pass) : List Pass :=
  Pass.upToFailure (program.fails source) terminal.required

namespace Compilation

variable (source : SourceFile) (program : Program) (allViolations : Bool) (terminal : Pass)

/-- A run comes to what the passes that it calls make and report. -/
theorem run_eq :
    (start source program).run allViolations terminal =
      afterPasses source program allViolations (program.called source terminal) := by
  have ordered := Pass.inputsFirst_required terminal
  exact runPasses_afterPasses allViolations ordered List.find?_nil

/-! ## What is there in the end -/

/-- Whether a result has been made. -/
def has (state : Compilation) : Artifact → Bool
  | .lowered => state.lowered.isSome
  | .graph => state.graph.isSome
  | .temporal => state.classes.isSome
  | .violations => state.violations.isSome

/-- Each result is the one that its pass computes from the results of the passes before it. -/
structure Consistent (state : Compilation) : Prop where
  lowered : ∀ chains, state.lowered = some chains → chains = state.program.operators.value
  graph : ∀ graph, state.graph = some graph → ∃ chains, state.lowered = some chains ∧
    graph = (FlowGraph.ofProgram state.source chains).value
  fingerprint : state.fingerprint = state.graph.map (Fingerprint.ofGraph state.source.text)
  classes : ∀ classes, state.classes = some classes → ∃ graph, state.graph = some graph ∧
    graph.propagate? = some classes
  violations : ∀ found, state.violations = some found → ∃ graph, state.graph = some graph ∧
    graph.findViolations? = some found

/-- What has been made and reported in one compilation, another one has too. -/
structure KeptBy (earlier later : Compilation) : Prop where
  lowered : ∀ chains, earlier.lowered = some chains → later.lowered = some chains
  graph : ∀ graph, earlier.graph = some graph → later.graph = some graph
  fingerprint : ∀ digest, earlier.fingerprint = some digest → later.fingerprint = some digest
  classes : ∀ classes, earlier.classes = some classes → later.classes = some classes
  violations : ∀ found, earlier.violations = some found → later.violations = some found
  reports : earlier.reports <+: later.reports

/-- A pass is called after those whose results it works on. -/
theorem mem_called_of_input {pass input : Pass} (member : pass ∈ program.called source terminal)
    (isInput : input ∈ pass.inputs) : input ∈ program.called source terminal :=
  (Pass.inputsFirst_required terminal).input_mem (Pass.upToFailure_prefix _) member isInput

theorem has_run_iff {pass : Pass} {artifact : Artifact} (makes : artifact ∈ pass.outputs) :
    ((start source program).run allViolations terminal).has artifact = true ↔
      pass ∈ program.called source terminal := by
  obtain ⟨classes, analyzed⟩ := FlowGraph.exists_analyzed_ofProgram source program.operators.value
  have found := FlowGraph.findViolations?_eq analyzed.found
  rw [run_eq]
  cases pass <;> obtain rfl := List.mem_singleton.mp makes <;>
    simp [has, afterPasses, analyzed.found, found]

theorem consistent_run : ((start source program).run allViolations terminal).Consistent := by
  have closed := @mem_called_of_input source program terminal
  rw [run_eq]
  constructor
  · intro chains made
    obtain ⟨-, made⟩ := Option.ite_none_right_eq_some.mp made
    exact (Option.some.inj made).symm
  · intro graph made
    obtain ⟨called, made⟩ := Option.ite_none_right_eq_some.mp made
    have lowered := closed called (by decide : Pass.lower ∈ Pass.buildGraph.inputs)
    exact ⟨program.operators.value, if_pos lowered, (Option.some.inj made).symm⟩
  · simp only [afterPasses]
    split_ifs <;> rfl
  · intro classes made
    obtain ⟨called, made⟩ := Option.ite_none_right_eq_some.mp made
    have wired := closed called (by decide : Pass.buildGraph ∈ Pass.propagate.inputs)
    exact ⟨(program.built source).value, if_pos wired, made⟩
  · intro found made
    obtain ⟨called, made⟩ := Option.ite_none_right_eq_some.mp made
    have wired := closed called (by decide : Pass.buildGraph ∈ Pass.checkRunaway.inputs)
    exact ⟨(program.built source).value, if_pos wired, made⟩

/-- A compilation that goes on to a later pass keeps what it has made and reported. -/
theorem run_keeps_artifacts {later : Pass} (isRequired : terminal ∈ later.required) :
    ((start source program).run allViolations terminal).KeptBy
      ((start source program).run allViolations later) := by
  have shorter : program.called source terminal <+: program.called source later :=
    Pass.upToFailure_mono (Pass.required_prefix isRequired)
  have called {pass : Pass} (member : pass ∈ program.called source terminal) :
      pass ∈ program.called source later :=
    shorter.subset member
  simp only [run_eq]
  constructor
  case reports => exact shorter.map _
  all_goals
    intro result made
    obtain ⟨isCalled, made⟩ := Option.ite_none_right_eq_some.mp made
    exact (if_pos (called isCalled)).trans made

/-! ## What the last pass reports -/

theorem reports_run :
    ((start source program).run allViolations terminal).reports =
      (program.called source terminal).map fun pass =>
        (pass, program.errors source allViolations pass) := by
  rw [run_eq]
  rfl

/-- Only the last pass of a run reports errors; it is the one that has failed, if any has. -/
theorem exists_last_report :
    ∃ front last, ((start source program).run allViolations terminal).reports = front ++ [last] ∧
      (∀ report ∈ front, report.2 = []) ∧
      ((start source program).run allViolations terminal).failedPass =
        (if last.2.isEmpty then none else some last.1) ∧
      (last.2 = [] → program.called source terminal = terminal.required) := by
  obtain ⟨front, last, isLast, passed, complete⟩ :=
    Pass.exists_last_upToFailure (program.fails source) (Pass.required_ne_nil terminal)
  rw [← Program.called] at isLast complete
  have noErrors_iff (pass : Pass) :
      program.errors source allViolations pass = [] ↔ program.fails source pass = false := by
    rw [← List.isEmpty_iff, errors_isEmpty, Bool.not_eq_true']
  refine ⟨front.map fun pass => (pass, program.errors source allViolations pass),
    (last, program.errors source allViolations last), ?_, ?_, ?_, ?_⟩
  · rw [reports_run, isLast, List.map_append, List.map_singleton]
  · rw [List.forall_mem_map]
    exact fun pass member => (noErrors_iff pass).mpr (passed pass member)
  · have none : front.find? (program.fails source) = none := by
      simpa using passed
    simp only [run_eq, afterPasses, isLast, List.find?_append, none, Option.none_or,
      errors_isEmpty]
    cases fails : program.fails source last <;> simp [fails]
  · exact fun noErrors => complete ((noErrors_iff last).mp noErrors)

/-- A run collects what its passes report, one after the other. -/
theorem diagnostics_run :
    ((start source program).run allViolations terminal).diagnostics =
      ((start source program).run allViolations terminal).reports.flatMap Prod.snd := by
  rw [run_eq, afterPasses, List.flatMap_map]

/-- An error is noted exactly if one of the passes that have run has failed. -/
theorem hasError_run :
    ((start source program).run allViolations terminal).hasError =
      ((start source program).run allViolations terminal).failedPass.isSome := by
  rw [run_eq, Bool.eq_iff_iff]
  simp only [afterPasses, List.find?_isSome, List.any_eq_true]

/-- All that a run reports is what the last of its passes reports. -/
theorem diagnostics_of_last {front : List (Pass × List Diagnostic)}
    {last : Pass × List Diagnostic}
    (reports : ((start source program).run allViolations terminal).reports = front ++ [last])
    (silent : ∀ report ∈ front, report.2 = []) :
    ((start source program).run allViolations terminal).diagnostics = last.2 := by
  have nothing : front.flatMap Prod.snd = [] := List.flatMap_eq_nil_iff.mpr silent
  simp [diagnostics_run, reports, nothing]

/-- The pass that has failed is the same with and without all violations. -/
theorem failedPass_run :
    ((start source program).run allViolations terminal).failedPass =
      (program.called source terminal).find? (program.fails source) := by
  rw [run_eq]
  rfl

/-- A run reports nothing exactly if no pass has failed. -/
theorem diagnostics_run_eq_nil_iff :
    ((start source program).run allViolations terminal).diagnostics = [] ↔
      ((start source program).run allViolations terminal).failedPass = none := by
  obtain ⟨front, last, reports, silent, failed, -⟩ :=
    exists_last_report source program allViolations terminal
  rw [diagnostics_of_last source program allViolations terminal reports silent, failed,
    ite_eq_left_iff, List.isEmpty_iff]
  simp

/-! ## One violation or all of them -/

/-- What is reported if not all violations are asked for. -/
def firstOnly (report : Pass × List Diagnostic) : Pass × List Diagnostic :=
  (report.1, if report.1 = .checkRunaway then report.2.take 1 else report.2)

theorem firstOnly_errors (pass : Pass) :
    firstOnly (pass, program.errors source true pass) =
      (pass, program.errors source false pass) := by
  cases pass <;> simp [firstOnly, Program.errors, reported, List.map_take]

/-- The passes that run are the same, and only the check for runaway programs reports less. -/
theorem reports_run_false :
    ((start source program).run false terminal).reports =
      ((start source program).run true terminal).reports.map firstOnly := by
  rw [reports_run, reports_run, List.map_map]
  apply List.map_congr_left
  intro pass _
  exact (firstOnly_errors source program pass).symm

/-- Without all violations, a run that finds some reports the first; any other reports the same. -/
theorem diagnostics_run_false :
    ((start source program).run false terminal).diagnostics =
      if ((start source program).run true terminal).failedPass = some .checkRunaway then
        ((start source program).run true terminal).diagnostics.take 1
      else ((start source program).run true terminal).diagnostics := by
  obtain ⟨front, last, reports, silent, failed, -⟩ :=
    exists_last_report source program true terminal
  have brief : ((start source program).run false terminal).diagnostics = (firstOnly last).2 := by
    apply diagnostics_of_last
    · rw [reports_run_false, reports, List.map_append, List.map_singleton]
    · rw [List.forall_mem_map]
      intro report member
      simp [firstOnly, silent report member]
  rw [brief, diagnostics_of_last source program true terminal reports silent, failed]
  obtain ⟨pass, found⟩ := last
  cases found <;> simp [firstOnly]

/-- The two runs differ in what the check for runaway programs reports, and in nothing else. -/
theorem run_false_eq :
    (start source program).run false terminal =
      { (start source program).run true terminal with
        reports := ((start source program).run true terminal).reports.map firstOnly
        diagnostics :=
          if ((start source program).run true terminal).failedPass = some .checkRunaway then
            ((start source program).run true terminal).diagnostics.take 1
          else ((start source program).run true terminal).diagnostics } := by
  rw [← reports_run_false, ← diagnostics_run_false]
  simp only [run_eq, afterPasses]

/-- What is reported without all violations is a first part of what is reported with them. -/
theorem diagnostics_run_prefix :
    ((start source program).run false terminal).diagnostics <+:
      ((start source program).run true terminal).diagnostics := by
  rw [diagnostics_run_false]
  split_ifs
  · exact List.take_prefix _ _
  · exact List.prefix_rfl

end Compilation

/--
A compilation calls a first part of the passes that its last pass requires, each of them once
and at least one, up to the first that reports errors.  These errors are all that is reported,
and this pass is the one that has failed; if there is none, all passes are called.  Exactly
the results of the called passes are there, also that of a pass that has failed, and each of
them follows from those before it.  A compilation to a later pass keeps them.  Asking for all
violations changes nothing but what the check for runaway programs reports, which is else the
first of them.
-/
theorem compilation_stops_at_failure (source : SourceFile) (program : Program) (terminal : Pass)
    (allViolations : Bool) :
    let state := (Compilation.start source program).run allViolations terminal
    let called := state.reports.map Prod.fst
    (called ≠ [] ∧ called <+: terminal.required ∧ called.Nodup) ∧
      (∀ report ∈ state.reports, report.2 = program.errors source allViolations report.1) ∧
      (∃ front last, state.reports = front ++ [last] ∧ (∀ report ∈ front, report.2 = []) ∧
        state.diagnostics = last.2 ∧
        state.failedPass = (if last.2.isEmpty then none else some last.1) ∧
        (state.hasError = true ↔ last.2 ≠ []) ∧
        (last.2 = [] → called = terminal.required)) ∧
      (∀ pass, ∀ artifact ∈ pass.outputs, (state.has artifact = true ↔ pass ∈ called)) ∧
      state.Consistent ∧
      (∀ later, terminal ∈ later.required →
        state.KeptBy ((Compilation.start source program).run allViolations later)) ∧
      let brief := (Compilation.start source program).run false terminal
      let full := (Compilation.start source program).run true terminal
      brief = { full with
        reports := full.reports.map Compilation.firstOnly
        diagnostics :=
          if full.failedPass = some .checkRunaway then full.diagnostics.take 1
          else full.diagnostics } := by
  intro state called
  have reports : state.reports = _ := Compilation.reports_run source program allViolations terminal
  have isCalled : called = program.called source terminal := by
    show state.reports.map Prod.fst = _
    rw [reports, List.map_map]
    exact List.map_id _
  have isPrefix : called <+: terminal.required := by
    rw [isCalled]
    exact Pass.upToFailure_prefix _
  obtain ⟨front, last, split, silent, failed, complete⟩ :=
    Compilation.exists_last_report source program allViolations terminal
  refine ⟨⟨?_, isPrefix, ?_⟩, ?_, ?_, ?_, ?_, ?_, ?_⟩
  · show state.reports.map Prod.fst ≠ []
    simp [state, split]
  · exact isPrefix.sublist.nodup (Pass.nodup_required terminal)
  · rw [reports, List.forall_mem_map]
    exact fun _ _ => rfl
  · refine ⟨front, last, split, silent,
      Compilation.diagnostics_of_last source program allViolations terminal split silent,
      failed, ?_, isCalled ▸ complete⟩
    rw [Compilation.hasError_run, failed]
    cases last.2 <;> simp
  · intro pass artifact makes
    rw [isCalled]
    exact Compilation.has_run_iff source program allViolations terminal makes
  · exact Compilation.consistent_run source program allViolations terminal
  · exact fun later => Compilation.run_keeps_artifacts source program allViolations terminal
  · exact Compilation.run_false_eq source program terminal

/-- Live data without end, which two operators wait for the end of. -/
def endlessTwice : SourceFile :=
  .unnamed "emit -to :end:\n| (sort x; tail)"

theorem compilation_stops_at_failure_endlessTwice :
    ∃ program, endlessTwice.program = .ok program ∧
      let brief := (Compilation.start endlessTwice program).run false .checkRunaway
      let full := (Compilation.start endlessTwice program).run true .checkRunaway
      full.diagnostics.length = 2 ∧ brief.diagnostics = full.diagnostics.take 1 ∧
        brief.has .violations = true ∧
        ((Compilation.start endlessTwice program).run true .propagate).KeptBy full := by
  have computed : (endlessTwice.program.toOption.any fun program =>
      let full := (Compilation.start endlessTwice program).run true .checkRunaway
      decide (full.failedPass = some .checkRunaway ∧ full.diagnostics.length = 2 ∧
        .checkRunaway ∈ full.reports.map Prod.fst)) = true := by
    decide +kernel
  cases parsed : endlessTwice.program with
  | error found => simp [parsed, Except.toOption] at computed
  | ok program =>
      rw [parsed] at computed
      obtain ⟨failed, two, isCalled⟩ := of_decide_eq_true computed
      obtain ⟨-, -, -, made, -, -, same⟩ :=
        compilation_stops_at_failure endlessTwice program .checkRunaway true
      obtain ⟨-, -, -, -, -, kept, -⟩ :=
        compilation_stops_at_failure endlessTwice program .propagate true
      refine ⟨program, rfl, two, ?_, ?_, kept .checkRunaway (by decide +kernel)⟩
      · rw [same, if_pos failed]
      · rw [same]
        exact (made .checkRunaway .violations (by decide)).mpr isCalled

end Flowgraph
