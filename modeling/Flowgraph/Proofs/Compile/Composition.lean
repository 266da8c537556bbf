import Flowgraph.Proofs.Analysis.Embedding
import Flowgraph.Proofs.Compile.Verdict
import Flowgraph.Proofs.Program.Joining
import Flowgraph.Proofs.Source.Joining

/-!
# Compiling programs that are put together

Two programs with a semicolon on a line of its own between them compile to their graphs
side by side.  If the first one runs away, its report stays as it is.  If only the second
one does, its report is found further down (`compile_joined`).

In the first program the place of the last proc grows, as the blanks after it now reach to
the semicolon.  No report shows this: a report shows a source of data that flows on, so
that another proc follows it.
-/

namespace Flowgraph

open Text

/-! ## Programs without errors -/

theorem SourceFile.program_eq_ok_iff {source : SourceFile} {program : Program} :
    source.program = .ok program ↔ parse source.characters = ⟨some program, []⟩ := by
  rw [SourceFile.program]
  cases parse source.characters with
  | mk read faults => cases read <;> cases faults <;> simp

/-- A program that is read and wired without errors, so that its data alone decides on it. -/
structure Wired (source : SourceFile) (program : Program) : Prop where
  parsed : source.program = .ok program
  lowered : program.operators.diagnostics = []
  built : (program.built source).diagnostics = []

/-- A text that compiles or is a runaway program. -/
def Judged (source : SourceFile) : Prop :=
  (∃ graph, compile source = .ok graph) ∨ ∃ report, compile source = .error (.runaway report)

instance (source : SourceFile) : Decidable (Judged source) :=
  match compiled : compile source with
  | .ok graph => .isTrue (.inl ⟨graph, compiled⟩)
  | .error (.runaway report) => .isTrue (.inr ⟨report, compiled⟩)
  | .error (.diagnostics _) | .error .cyclic => .isFalse (by simp [Judged, compiled])

theorem Judged.exists_wired {source : SourceFile} (judged : Judged source) :
    ∃ program, Wired source program := by
  have noErrors : ∀ found, compile source ≠ .error (.diagnostics found) := by
    intro found same
    rcases judged with ⟨graph, compiled⟩ | ⟨report, compiled⟩ <;> simp [compiled] at same
  cases parsed : source.program with
  | error found => exact absurd (by simp only [compile, parsed]) (noErrors found)
  | ok program =>
      refine ⟨program, parsed, ?_, ?_⟩
      · by_contra errors
        exact noErrors _ (compile_of_lower_errors parsed errors)
      · by_contra errors
        by_cases lowered : program.operators.diagnostics = []
        · exact noErrors _ (compile_of_graph_errors parsed lowered errors)
        · exact noErrors _ (compile_of_lower_errors parsed lowered)

section Verdict

variable {source : SourceFile} {program : Program} (wired : Wired source program)
  {classes : TemporalMap} (analyzed : (program.built source).value.Analyzed classes)

include wired analyzed

theorem Wired.compile_eq_ok_iff {graph : FlowGraph} :
    compile source = .ok graph ↔
      ((program.built source).value.violations classes).map Violation.report = [] ∧
        (program.built source).value = graph := by
  rw [compile_of_graph wired.parsed wired.lowered wired.built analyzed.found]
  cases (program.built source).value.violations classes <;> simp

theorem Wired.compile_eq_runaway_iff {report : ErrorReport} :
    compile source = .error (.runaway report) ↔
      (((program.built source).value.violations classes).map Violation.report).head? =
        some report := by
  rw [compile_of_graph wired.parsed wired.lowered wired.built analyzed.found]
  cases (program.built source).value.violations classes <;> simp

end Verdict

/-! ## Operators side by side -/

/-- The operators of a program and those of another one after it, where they stand then. -/
abbrev sideBySide (length : Nat) (chains later : List (Flow Operator)) : List (Flow Operator) :=
  Stage.mapBranches (Operator.relocate (.earlier length)) (Span.relocate (.earlier length))
      chains ++
    Stage.mapBranches (Operator.relocate (.later (length + 3)))
      (Span.relocate (.later (length + 3))) later

/-- Both programs are one that is wired without errors, with the operators of both. -/
theorem Wired.exists_joined {source other both : SourceFile} {program later : Program}
    (wired : Wired source program) (wiredLater : Wired other later)
    (isBoth : both.characters = joined source.characters other.characters)
    (nonempty : program.chains ≠ [])
    (unended : ∀ token ∈ (lex source.characters).tokens.getLast?, token.token ≠ .semicolon) :
    ∃ whole, Wired both whole ∧ whole.operators.value =
      sideBySide source.length program.operators.value later.operators.value := by
  obtain ⟨whole, parsed, chains⟩ := parse_joined
    (SourceFile.program_eq_ok_iff.mp wired.parsed)
    (SourceFile.program_eq_ok_iff.mp wiredLater.parsed) nonempty unended
  obtain ⟨operators, statements⟩ := Stage.branchOperators_append_relocate (.earlier source.length)
    (.later (source.length + 3)) program.chains later.chains
  have isSideBySide : whole.operators.value =
      sideBySide source.length program.operators.value later.operators.value := by
    rw [Program.operators, chains]
    exact operators
  have lowered : whole.operators.diagnostics.map Diagnostic.statement = [] := by
    rw [Program.operators, chains]
    refine statements.trans (List.append_eq_nil_iff.mpr ⟨?_, ?_⟩)
    · exact List.map_eq_nil_iff.mpr wired.lowered
    · exact List.map_eq_nil_iff.mpr wiredLater.lowered
  have built : (whole.built both).diagnostics.map Diagnostic.statement = [] := by
    rw [(FlowGraph.ofProgram_append_relocate _ _ source other both isSideBySide).2.2, wired.built,
      wiredLater.built]
    rfl
  exact ⟨whole, ⟨SourceFile.program_eq_ok_iff.mpr (isBoth ▸ parsed),
    List.map_eq_nil_iff.mp lowered, List.map_eq_nil_iff.mp built⟩, isSideBySide⟩

/-! ## Places and reports -/

/-- The report, found further down. -/
def ErrorReport.moveDown (lines bytes : Nat) (report : ErrorReport) : ErrorReport :=
  { report with location := report.location.moveDown lines bytes }

/-- An operator begins in the text, and ends before the next operator begins. -/
theorem spans_operators_of_parse {text : List Char} {program : Program}
    (parsed : parse text = ⟨some program, []⟩) :
    (∀ span ∈ (Stage.branchSteps program.operators.value).map Operator.span,
        span.start < byteLength text) ∧
      ((Stage.branchSteps program.operators.value).map Operator.span).Pairwise
        fun span later => span.stop ≤ later.start := by
  have spans := spans_operators_sublist program
  constructor
  · intro span member
    obtain ⟨call, isCall, rfl⟩ := List.mem_map.mp (spans.subset member)
    exact start_lt_of_mem_calls parsed isCall
  · exact (List.pairwise_map.mpr (pairwise_calls_of_parse parsed)).sublist spans

/-- Violations that are found again are reported at the place of the source found again. -/
theorem FlowGraph.reports_of_recursIn {part graph : FlowGraph} (wellFormed : part.WellFormed)
    {number : Nat} (lines bytes : Nat)
    (located : ∀ place next node other, Relation.TransGen part.Flows place next →
      next < part.size → part.nodes[place]? = some node →
      graph.nodes[place + number]? = some other →
      other.location = node.location.moveDown lines bytes)
    {found again : List Violation}
    (recurs : List.Forall₂ (part.RecursIn graph number) found again) :
    again.map Violation.report =
      (found.map Violation.report).map (ErrorReport.moveDown lines bytes) := by
  induction recurs with
  | nil => rfl
  | @cons violation other _ _ same _ ih =>
      obtain ⟨place, node, otherNode, way, present, isBlamed, presentWhole, isBlamedToo⟩ :=
        same.blamed
      obtain ⟨_, -, last⟩ := Relation.TransGen.tail'_iff.mp way
      have moved := located place _ node otherNode way (wellFormed.flows_lt last).2 present
        presentWhole
      rw [List.map_cons, List.map_cons, List.map_cons, ih, Violation.report, Violation.report,
        same.message, isBlamedToo, moved, isBlamed]
      rfl

/-! ## Both programs -/

section Joined

variable {source other both : SourceFile} {program later whole : Program}
  (isBoth : both.characters = joined source.characters other.characters)
  (operators : whole.operators.value =
    sideBySide source.length program.operators.value later.operators.value)

include operators

theorem graph_joined :
    (whole.built both).value.nodes.map Node.content =
        (program.built source).value.nodes.map Node.content ++
          (later.built other).value.nodes.map Node.content ∧
      (whole.built both).value.edges =
        (program.built source).value.edges ++
          (later.built other).value.edges.map (Edge.shift (program.built source).value.size) := by
  obtain ⟨content, edges, -⟩ := FlowGraph.ofProgram_append_relocate _ _ source other both operators
  exact ⟨content, edges⟩

include isBoth

/-- In the first program operators that another one follows are where they were. -/
theorem location_joined_left (parsed : parse source.characters = ⟨some program, []⟩)
    (sameName : both.name = source.name) {place next : Nat} (before : place < next)
    (bound : next < (program.built source).value.size) {node otherNode : Node}
    (present : (program.built source).value.nodes[place]? = some node)
    (presentWhole : (whole.built both).value.nodes[place]? = some otherNode) :
    otherNode.location = node.location := by
  obtain ⟨starts, apart⟩ := spans_operators_of_parse parsed
  rw [FlowGraph.size_ofProgram] at bound
  rw [FlowGraph.nodes_ofProgram, List.getElem?_map, Option.map_eq_some_iff] at present
  obtain ⟨operator, isOperator, rfl⟩ := present
  rw [FlowGraph.nodes_ofProgram, operators, Stage.branchSteps_append,
    Stage.branchSteps_mapBranches, List.getElem?_map,
    List.getElem?_append_left (by simpa using before.trans bound), List.getElem?_map, isOperator]
    at presentWhole
  obtain rfl := Option.some.inj presentWhole
  obtain ⟨within, rfl⟩ := List.getElem?_eq_some_iff.mp isOperator
  have start := starts _ (List.mem_map_of_mem (List.getElem_mem within))
  have startNext := starts _ (List.mem_map_of_mem (List.getElem_mem bound))
  have stop := List.pairwise_iff_getElem.mp (List.pairwise_map.mp apart) place next within bound
    before
  have stays : (Stage.branchSteps program.operators.value)[place].span.stop ≠ source.length := by
    rw [SourceFile.length]
    omega
  simp only [Operator.node, SourceFile.location, sameName, Operator.relocate, Span.relocateProc,
    Relocation.earlier, id, if_neg stays]
  rw [SourceFile.position_joined_left isBoth rfl start.le,
    SourceFile.position_joined_left isBoth rfl (stop.trans startNext.le)]

/-- In the second program all operators are further down. -/
theorem location_joined_right (sameName : both.name = other.name) {place : Nat}
    {node otherNode : Node} (present : (later.built other).value.nodes[place]? = some node)
    (presentWhole : (whole.built both).value.nodes[place + (program.built source).value.size]? =
      some otherNode) :
    otherNode.location =
      node.location.moveDown (source.characters.count '\n' + 2) (source.length + 3) := by
  rw [FlowGraph.nodes_ofProgram, List.getElem?_map, Option.map_eq_some_iff] at present
  obtain ⟨operator, isOperator, rfl⟩ := present
  rw [FlowGraph.nodes_ofProgram, FlowGraph.size_ofProgram, operators, Stage.branchSteps_append,
    Stage.branchSteps_mapBranches, Stage.branchSteps_mapBranches, List.getElem?_map,
    List.getElem?_append_right (by simp), List.length_map, Nat.add_sub_cancel, List.getElem?_map,
    isOperator] at presentWhole
  obtain rfl := Option.some.inj presentWhole
  simp only [Operator.node, SourceFile.location, sameName, Operator.relocate, Span.relocateProc,
    Relocation.later, Location.moveDown]
  rw [SourceFile.length, SourceFile.position_joined_right isBoth rfl,
    SourceFile.position_joined_right isBoth rfl]

/-- The reports of both programs, those of the second further down. -/
theorem reports_joined (parsed : parse source.characters = ⟨some program, []⟩)
    (sameName : both.name = source.name) (sameNameToo : both.name = other.name)
    {classes classesLater classesWhole : TemporalMap}
    (analyzed : (program.built source).value.Analyzed classes)
    (analyzedLater : (later.built other).value.Analyzed classesLater)
    (analyzedWhole : (whole.built both).value.Analyzed classesWhole) :
    ((whole.built both).value.violations classesWhole).map Violation.report =
      ((program.built source).value.violations classes).map Violation.report ++
        (((later.built other).value.violations classesLater).map Violation.report).map
          (ErrorReport.moveDown (source.characters.count '\n' + 2) (source.length + 3)) := by
  obtain ⟨content, edges⟩ := graph_joined operators
  have size : (whole.built both).value.size =
      (program.built source).value.size + (later.built other).value.size := by
    simpa [FlowGraph.size] using congrArg List.length content
  have order : classesWhole.order =
      classes.order ++ classesLater.order.map (· + (program.built source).value.size) := by
    rw [FlowGraph.order_eq_range_of_analyzed analyzed,
      FlowGraph.order_eq_range_of_analyzed analyzedLater,
      FlowGraph.order_eq_range_of_analyzed analyzedWhole, size, List.range_add]
    simp only [Nat.add_comm]
  obtain ⟨earlier, afterwards, violations, recurs, recursLater⟩ :=
    FlowGraph.exists_violations_append analyzed analyzedLater analyzedWhole content edges order
  have reports := FlowGraph.reports_of_recursIn analyzed.wellFormed 0 0
    (fun place next node otherNode way bound present presentWhole =>
      location_joined_left isBoth operators parsed sameName
        (FlowGraph.lt_of_ascending (FlowGraph.forward_ofProgram _ _) way) bound present
        presentWhole)
    recurs
  have reportsLater := FlowGraph.reports_of_recursIn analyzedLater.wellFormed _ _
    (fun place next node otherNode way bound present presentWhole =>
      location_joined_right isBoth operators sameNameToo present presentWhole) recursLater
  rw [violations, List.map_append, reports, reportsLater]
  congr 1
  exact List.map_id _

end Joined

/-! ## The verdict on both programs -/

theorem characters_joined (first second : String) :
    (SourceFile.unnamed (first ++ "\n;\n" ++ second)).characters =
      joined (SourceFile.unnamed first).characters (SourceFile.unnamed second).characters := by
  simp [SourceFile.characters, SourceFile.unnamed, joined]

/--
Two texts with a semicolon on a line of its own between them.  If the first one is a runaway
program, both are, with the same report.  If only the second one is, its report is moved
down.  If both compile, their graphs stand side by side.
-/
theorem compile_joined {first second : String} (judged : Judged (.unnamed first))
    (judgedLater : Judged (.unnamed second)) {program : Program}
    (parsed : (SourceFile.unnamed first).program = .ok program) (nonempty : program.chains ≠ [])
    (unended : ∀ token ∈ (lex first.toList).tokens.getLast?, token.token ≠ .semicolon) :
    (∀ report, compileText first = .error (.runaway report) →
        compileText (first ++ "\n;\n" ++ second) = .error (.runaway report)) ∧
      (∀ graph report, compileText first = .ok graph →
        compileText second = .error (.runaway report) →
        compileText (first ++ "\n;\n" ++ second) = .error (.runaway
          (report.moveDown (first.toList.count '\n' + 2) (byteLength first.toList + 3)))) ∧
      ∀ graph later, compileText first = .ok graph → compileText second = .ok later →
        ∃ whole, compileText (first ++ "\n;\n" ++ second) = .ok whole ∧
          whole.nodes.map Node.content =
            graph.nodes.map Node.content ++ later.nodes.map Node.content ∧
          whole.edges = graph.edges ++ later.edges.map (Edge.shift graph.size) := by
  have isBoth := characters_joined first second
  obtain ⟨_, wired⟩ := judged.exists_wired
  obtain rfl : _ = program := Except.ok.inj (wired.parsed.symm.trans parsed)
  obtain ⟨later, wiredLater⟩ := judgedLater.exists_wired
  obtain ⟨whole, wiredWhole, operators⟩ := wired.exists_joined wiredLater isBoth nonempty unended
  obtain ⟨classes, analyzed⟩ := FlowGraph.exists_analyzed_ofProgram _ _
  obtain ⟨classesLater, analyzedLater⟩ := FlowGraph.exists_analyzed_ofProgram _ _
  obtain ⟨classesWhole, analyzedWhole⟩ := FlowGraph.exists_analyzed_ofProgram _ _
  have reports := reports_joined isBoth operators (SourceFile.program_eq_ok_iff.mp parsed) rfl rfl
    analyzed analyzedLater analyzedWhole
  simp only [compileText, wired.compile_eq_ok_iff analyzed, wired.compile_eq_runaway_iff analyzed,
    wiredLater.compile_eq_ok_iff analyzedLater, wiredLater.compile_eq_runaway_iff analyzedLater,
    wiredWhole.compile_eq_ok_iff analyzedWhole, wiredWhole.compile_eq_runaway_iff analyzedWhole,
    reports]
  refine ⟨?_, ?_, ?_⟩
  · intro report runsAway
    rw [List.head?_append, runsAway, Option.some_or]
  · rintro _ report ⟨compiles, -⟩ runsAway
    rw [compiles, List.nil_append, List.head?_map, runsAway]
    rfl
  · rintro _ _ ⟨compiles, rfl⟩ ⟨compilesLater, rfl⟩
    rw [compiles, compilesLater]
    exact ⟨_, ⟨rfl, rfl⟩, graph_joined operators⟩

/-- Data that ends, with a comment right before the end of the text. -/
def firstOfBounded : String :=
  "read a -to :end:\n| head 1 // first"

/-- Live data without end, which is to be sorted. -/
def sortOfLive : String :=
  "emit -to :end:\n| sort x"

theorem compile_firstOfBounded_sortOfLive :
    Judged (.unnamed firstOfBounded) ∧ Judged (.unnamed sortOfLive) ∧
      (∀ token ∈ (lex firstOfBounded.toList).tokens.getLast?, token.token ≠ .semicolon) ∧
      ∃ program graph report, (SourceFile.unnamed firstOfBounded).program = .ok program ∧
        program.chains ≠ [] ∧ compileText firstOfBounded = .ok graph ∧
        compileText sortOfLive = .error (.runaway report) ∧
        compileText (firstOfBounded ++ "\n;\n" ++ sortOfLive) =
          .error (.runaway (report.moveDown 3 37)) := by
  have judged : Judged (.unnamed firstOfBounded) := by decide +kernel
  have judgedLater : Judged (.unnamed sortOfLive) := by decide +kernel
  have unended : ∀ token ∈ (lex firstOfBounded.toList).tokens.getLast?,
      token.token ≠ .semicolon := by
    decide
  have length : byteLength firstOfBounded.toList = 34 := by decide
  have lines : firstOfBounded.toList.count '\n' = 1 := by decide
  have compiles : (compileText firstOfBounded).isOk = true := by decide +kernel
  have runsAway : (compileText sortOfLive).isOk = false := by decide +kernel
  have hasChains : ((SourceFile.unnamed firstOfBounded).program.map fun program =>
      program.chains.isEmpty).toOption = some false := by
    decide +kernel
  obtain ⟨program, wired⟩ := judged.exists_wired
  have nonempty : program.chains ≠ [] := by
    rw [wired.parsed] at hasChains
    simpa [Except.map, Except.toOption] using hasChains
  obtain ⟨-, movesDown, -⟩ := compile_joined judged judgedLater wired.parsed nonempty unended
  rw [length, lines] at movesDown
  refine ⟨judged, judgedLater, unended, program, ?_⟩
  rcases judged with ⟨graph, compiled⟩ | ⟨report, compiled⟩
  · rcases judgedLater with ⟨later, compiledLater⟩ | ⟨report, compiledLater⟩
    · rw [compileText, compiledLater] at runsAway
      cases runsAway
    · exact ⟨graph, report, wired.parsed, nonempty, compiled, compiledLater,
        movesDown graph report compiled compiledLater⟩
  · rw [compileText, compiled] at compiles
    cases compiles

end Flowgraph
