import Flowgraph.Proofs.Analysis.Embedding
import Flowgraph.Proofs.Compile.Verdict
import Flowgraph.Proofs.Program.Continuation
import Flowgraph.Proofs.Program.Placement

/-!
# Layout has no meaning

Two texts with the same tokens may differ in the blanks and comments between them.  They
are programs alike, and a program that is compiled from one differs from the program that
is compiled from the other in its places only (`layout_has_no_meaning`).

The places are forgotten one phase after the other: those of tokens before reading, those
of calls before they become operators, and those of operators before they are wired.  Once
they are in the graph they are compared with each other, in the classes of live data.
There it matters that no two nodes of a graph have the same location
(`nodup_locations`), so that a location stands for a node.
-/

namespace Flowgraph

/-! ## Reading -/

section Parse

theorem complete?_forget_of_parse {text : List Char} {program : Program}
    (parsed : parse text = ⟨some program, []⟩) :
    Draft.initial.complete? (fun _ => 0) ((lex text).tokens.map (PlacedToken.relocate .forget)) =
      some (relocateChains .forget program.chains) := by
  obtain ⟨tree, derived, chains⟩ := exists_tree_of_parse parsed
  rw [Draft.complete?_forget (afterTrivia text), ← derived, tree.complete?_tokens, ← chains]
  rfl

theorem exists_parse_iff_isProgram {text : List Char} (clean : (lex text).strays = []) :
    (∃ program, parse text = ⟨some program, []⟩) ↔
      IsProgram ((lex text).tokens.map PlacedToken.token) := by
  constructor
  · rintro ⟨program, parsed⟩
    obtain ⟨tree, derived⟩ := exists_tokens_of_parse_eq parsed
    exact ⟨tree, derived ▸ rfl⟩
  · intro isProgram
    obtain ⟨tree, derived⟩ :=
      exists_programTree ((accepts_iff_isProgram (fun _ => 0) _).mpr isProgram)
    exact ⟨_, parse_eq_of_tokens clean derived⟩

variable {first second : List Char}
  (same : (lex first).tokens.map PlacedToken.token = (lex second).tokens.map PlacedToken.token)

include same

theorem message_faultAt (index : Nat) (expected : List Expected) :
    (faultAt first index expected).message = (faultAt second index expected).message := by
  have token := congrArg (·[index]?) same
  simp only [List.getElem?_map] at token
  rw [faultAt, faultAt]
  cases atFirst : (lex first).tokens[index]? <;> cases atSecond : (lex second).tokens[index]? <;>
    simp_all [ParseFault.message]

theorem forget_tokens_eq :
    (lex first).tokens.map (PlacedToken.relocate .forget) =
      (lex second).tokens.map (PlacedToken.relocate .forget) := by
  rw [map_relocate_forget, map_relocate_forget, same]

/-- Reading stops at the same token, and expects the same there. -/
theorem stops_of_same_tokens {final other : Draft} {unread otherUnread : List PlacedToken}
    (read : Draft.initial.readOn (afterTrivia first) (lex first).tokens = (final, unread))
    (otherRead : Draft.initial.readOn (afterTrivia second) (lex second).tokens =
      (other, otherUnread)) :
    final.expected = other.expected ∧ unread.length = otherUnread.length := by
  have moved := Draft.readOn_forget (afterTrivia first) (lex first).tokens
  rw [forget_tokens_eq same, Draft.readOn_forget (afterTrivia second), read, otherRead] at moved
  obtain ⟨drafts, unreads⟩ := Prod.mk.inj moved
  constructor
  · rw [← final.expected_relocate .forget, ← drafts, Draft.expected_relocate]
  · simpa only [List.length_map] using (congrArg List.length unreads).symm

/-- Both texts are programs that differ in places only, or both have the same error. -/
theorem parse_of_same_tokens (cleanFirst : (lex first).strays = [])
    (cleanSecond : (lex second).strays = []) :
    (∃ index expected, index ≤ (lex first).tokens.length ∧
        parse first = ⟨none, [faultAt first index expected]⟩ ∧
        parse second = ⟨none, [faultAt second index expected]⟩) ∨
      ∃ program other, parse first = ⟨some program, []⟩ ∧ parse second = ⟨some other, []⟩ ∧
        relocateChains .forget program.chains = relocateChains .forget other.chains := by
  have alike : (∃ program, parse first = ⟨some program, []⟩) ↔
      ∃ program, parse second = ⟨some program, []⟩ := by
    rw [exists_parse_iff_isProgram cleanFirst, exists_parse_iff_isProgram cleanSecond, same]
  obtain ⟨final, unread, readFirst⟩ : ∃ final unread,
      Draft.initial.readOn (afterTrivia first) (lex first).tokens = (final, unread) := ⟨_, _, rfl⟩
  obtain ⟨other, otherUnread, readSecond⟩ : ∃ final unread,
      Draft.initial.readOn (afterTrivia second) (lex second).tokens = (final, unread) :=
    ⟨_, _, rfl⟩
  obtain ⟨before, split, -⟩ := isFirstFault_of_readOn readFirst
  obtain ⟨otherBefore, otherSplit, -⟩ := isFirstFault_of_readOn readSecond
  rcases parse_eq_of_readOn cleanFirst split readFirst with isProgram | fault
  · obtain ⟨program, parsed⟩ := isProgram
    obtain ⟨otherProgram, otherParsed⟩ := alike.mp ⟨program, parsed⟩
    refine .inr ⟨program, otherProgram, parsed, otherParsed, Option.some.inj ?_⟩
    rw [← complete?_forget_of_parse parsed, ← complete?_forget_of_parse otherParsed,
      forget_tokens_eq same]
  · rcases parse_eq_of_readOn cleanSecond otherSplit readSecond with isProgram | otherFault
    · obtain ⟨program, parsed⟩ := alike.mpr isProgram
      rw [parsed] at fault
      cases fault
    · obtain ⟨expected, lengths⟩ := stops_of_same_tokens same readFirst readSecond
      have index : before.length = otherBefore.length := by
        have whole := congrArg List.length same
        rw [List.length_map, List.length_map, split, otherSplit, List.length_append,
          List.length_append] at whole
        omega
      refine .inl ⟨before.length, final.expected, ?_, fault, ?_⟩
      · simp [split]
      · rw [index, expected, otherFault]

end Parse

/-! ## Operators and graphs -/

/-- Chains of operators without their places. -/
abbrev unplaced : List (Flow Operator) → List (Flow Operator) :=
  Stage.mapBranches (Operator.relocate .forget) (Span.relocate .forget)

/-- Programs that differ in places only become operators that differ in places only. -/
theorem operators_of_forget {program other : Program}
    (same : relocateChains .forget program.chains = relocateChains .forget other.chains) :
    unplaced program.operators.value = unplaced other.operators.value ∧
      program.operators.diagnostics.map Diagnostic.statement =
        other.operators.diagnostics.map Diagnostic.statement := by
  have operators := Stage.branchOperators_relocate .forget program.chains
  have others := Stage.branchOperators_relocate .forget other.chains
  rw [same] at operators
  exact ⟨operators.value.symm.trans others.value, operators.statements.trans others.statements.symm⟩

/-- Operators that differ in places only are wired alike. -/
theorem ofProgram_of_unplaced (first second : SourceFile) {chains others : List (Flow Operator)}
    (same : unplaced chains = unplaced others) :
    (FlowGraph.ofProgram first chains).value.nodes.map Node.content =
        (FlowGraph.ofProgram second others).value.nodes.map Node.content ∧
      (FlowGraph.ofProgram first chains).value.edges =
        (FlowGraph.ofProgram second others).value.edges ∧
      (FlowGraph.ofProgram first chains).diagnostics.map Diagnostic.statement =
        (FlowGraph.ofProgram second others).diagnostics.map Diagnostic.statement := by
  have wired := FlowGraph.ofProgram_relocate .forget first first chains
  have otherWired := FlowGraph.ofProgram_relocate .forget second first others
  rw [show Stage.mapBranches _ _ chains = Stage.mapBranches _ _ others from same] at wired
  exact ⟨wired.value.1.symm.trans otherWired.value.1, wired.value.2.symm.trans otherWired.value.2,
    wired.statements.trans otherWired.statements.symm⟩

/-- No two nodes of the graph of a text have the same location. -/
theorem nodup_locations {source : SourceFile} {program : Program}
    (parsed : parse source.characters = ⟨some program, []⟩) :
    ((program.built source).value.nodes.map Node.location).Nodup := by
  have distinct : ((Stage.branchSteps program.chains).map fun call =>
      source.location call.span).Nodup := by
    refine List.pairwise_map.mpr ((pairwise_starts_of_parse parsed).imp_of_mem ?_)
    intro call later _ isLater less same
    have offsets := congrArg (fun location => location.start.offset) same
    have inside : later.span.start < source.length := start_lt_of_mem_calls parsed isLater
    simp only [SourceFile.location, SourceFile.position] at offsets
    omega
  have spans := (spans_operators_sublist program).map source.location
  rw [FlowGraph.nodes_ofProgram, List.map_map]
  rw [List.map_map, List.map_map] at spans
  exact distinct.sublist spans

/-! ## Classes and violations -/

namespace FlowGraph

/--
The classes of the data at one node of two graphs: they are equally dangerous, and live
data comes from the same source, the only one at its location.
-/
structure Corresponds (graph other : FlowGraph) (value valueOther : TemporalClass) : Prop where
  rank : valueOther.rank = value.rank
  blames : ∀ source, graph.Blames value source ↔ other.Blames valueOther source
  unique : value.provenance? ≠ none → ∃! source, graph.Blames value source

variable {graph other : FlowGraph} {classes others : TemporalMap}

theorem Blames.unique (distinct : (graph.nodes.map Node.location).Nodup) {value : TemporalClass}
    {source another : Nat} (blames : graph.Blames value source)
    (blamesToo : graph.Blames value another) : another = source := by
  obtain ⟨node, present, -, provenance⟩ := blames
  obtain ⟨too, presentToo, -, provenanceToo⟩ := blamesToo
  have bound : another < (graph.nodes.map Node.location).length := by
    rw [List.length_map]
    exact (List.getElem?_eq_some_iff.mp presentToo).1
  refine (List.getElem?_inj bound distinct).mp ?_
  rw [List.getElem?_map, List.getElem?_map, present, presentToo, Option.map_some, Option.map_some,
    ← provenance, ← provenanceToo]

theorem corresponds_of_blames (distinct : (graph.nodes.map Node.location).Nodup)
    (distinctOther : (other.nodes.map Node.location).Nodup) {value valueOther : TemporalClass}
    (rank : valueOther.rank = value.rank)
    (blamed : value.provenance? ≠ none →
      ∃ source, graph.Blames value source ∧ other.Blames valueOther source) :
    graph.Corresponds other value valueOther := by
  by_cases live : value.provenance? = none
  · have none : valueOther.provenance? = none := by
      rwa [TemporalClass.provenance?_eq_none_iff, rank, ← TemporalClass.provenance?_eq_none_iff]
    exact ⟨rank, fun source => by simp [Blames, live, none], fun some => absurd live some⟩
  · obtain ⟨source, blames, otherBlames⟩ := blamed live
    refine ⟨rank, fun another => ⟨fun too => ?_, fun too => ?_⟩, fun _ => ⟨source, blames, ?_⟩⟩
    · exact blames.unique distinct too ▸ otherBlames
    · exact otherBlames.unique distinctOther too ▸ blames
    · exact fun another too => blames.unique distinct too

/-- Graphs that differ in locations only, none of them twice, are analyzed alike. -/
theorem analysis_of_same_content
    (content : graph.nodes.map Node.content = other.nodes.map Node.content)
    (edges : graph.edges = other.edges) (analyzed : graph.Analyzed classes)
    (analyzedOther : other.Analyzed others)
    (distinct : (graph.nodes.map Node.location).Nodup)
    (distinctOther : (other.nodes.map Node.location).Nodup)
    (order : others.order = classes.order) :
    (∀ place < graph.size,
        graph.Corresponds other (classes.input place) (others.input place) ∧
          graph.Corresponds other (classes.output place) (others.output place)) ∧
      (other.violations others).map (fun violation =>
          (violation.node, violation.message, violation.path.map Hop.name)) =
        (graph.violations classes).map fun violation =>
          (violation.node, violation.message, violation.path.map Hop.name) := by
  have standsIn : graph.StandsIn other 0 := by
    constructor
    · intro place _
      have same := congrArg (·[place]?) content
      simpa only [List.getElem?_map, Nat.add_zero] using same.symm
    · intro place _
      simp [predecessors, edges]
  constructor
  · intro place bound
    have present := List.getElem?_eq_getElem bound
    have rank := standsIn.rank_eq analyzed analyzedOther present
    constructor
    · exact corresponds_of_blames distinct distinctOther rank.1
        (standsIn.exists_blames_input analyzed analyzedOther present)
    · exact corresponds_of_blames distinct distinctOther rank.2
        (standsIn.exists_blames_output analyzed analyzedOther present)
  · have recurs := standsIn.forall₂_violations analyzed analyzedOther classes.order
      fun _ => analyzed.lt_size
    simp only [Nat.add_zero, List.map_id'] at recurs
    rw [violations, violations, order]
    generalize classes.order.filterMap (graph.violationAt? classes) = found at recurs ⊢
    generalize classes.order.filterMap (other.violationAt? others) = again at recurs ⊢
    induction recurs with
    | nil => rfl
    | cons same _ ih =>
        rw [List.map_cons, List.map_cons, ih, same.node, Nat.add_zero, same.names, same.message]

end FlowGraph

/-! ## The whole compilation -/

/-- Two programs, each of a source of its own, that mean the same. -/
structure SameMeaning (first second : SourceFile) (program other : Program) : Prop where
  operators : unplaced program.operators.value = unplaced other.operators.value
  operatorErrors : program.operators.diagnostics.map Diagnostic.statement =
    other.operators.diagnostics.map Diagnostic.statement
  nodes : (program.built first).value.nodes.map Node.content =
    (other.built second).value.nodes.map Node.content
  edges : (program.built first).value.edges = (other.built second).value.edges
  graphErrors : (program.built first).diagnostics.map Diagnostic.statement =
    (other.built second).diagnostics.map Diagnostic.statement
  analysis : ∃ classes others,
    (program.built first).value.propagate? = some classes ∧
    (other.built second).value.propagate? = some others ∧
    (∀ place < (program.built first).value.size,
      (program.built first).value.Corresponds (other.built second).value
          (classes.input place) (others.input place) ∧
        (program.built first).value.Corresponds (other.built second).value
          (classes.output place) (others.output place)) ∧
    ∃ found again, (program.built first).value.findViolations? = some found ∧
      (other.built second).value.findViolations? = some again ∧
      again.map (fun violation =>
          (violation.node, violation.message, violation.path.map Hop.name)) =
        found.map fun violation =>
          (violation.node, violation.message, violation.path.map Hop.name)

theorem sameMeaning_of_forget {first second : SourceFile} {program other : Program}
    (parsed : parse first.characters = ⟨some program, []⟩)
    (otherParsed : parse second.characters = ⟨some other, []⟩)
    (same : relocateChains .forget program.chains = relocateChains .forget other.chains) :
    SameMeaning first second program other := by
  obtain ⟨operators, operatorErrors⟩ := operators_of_forget same
  obtain ⟨nodes, edges, graphErrors⟩ := ofProgram_of_unplaced first second operators
  refine ⟨operators, operatorErrors, nodes, edges, graphErrors, ?_⟩
  obtain ⟨classes, analyzed⟩ :=
    FlowGraph.exists_analyzed_ofProgram first program.operators.value
  obtain ⟨others, analyzedOther⟩ :=
    FlowGraph.exists_analyzed_ofProgram second other.operators.value
  have order : others.order = classes.order := by
    have size := congrArg List.length nodes
    rw [List.length_map, List.length_map] at size
    rw [FlowGraph.order_eq_range_of_analyzed analyzed,
      FlowGraph.order_eq_range_of_analyzed analyzedOther, FlowGraph.size, FlowGraph.size, size]
  obtain ⟨correspond, violations⟩ := FlowGraph.analysis_of_same_content nodes edges analyzed
    analyzedOther (nodup_locations parsed) (nodup_locations otherParsed) order
  exact ⟨classes, others, analyzed.found, analyzedOther.found, correspond, _, _,
    FlowGraph.findViolations?_eq analyzed.found,
    FlowGraph.findViolations?_eq analyzedOther.found, violations⟩

/--
Two texts without stray characters that have the same tokens are the same program: both
are refused with the same error at the same token, or both are read and mean the same.
-/
theorem layout_has_no_meaning (first second : SourceFile)
    (cleanFirst : (lex first.characters).strays = [])
    (cleanSecond : (lex second.characters).strays = [])
    (same : (lex first.characters).tokens.map PlacedToken.token =
      (lex second.characters).tokens.map PlacedToken.token) :
    (∃ index expected, index ≤ (lex first.characters).tokens.length ∧
        parse first.characters = ⟨none, [faultAt first.characters index expected]⟩ ∧
        parse second.characters = ⟨none, [faultAt second.characters index expected]⟩ ∧
        (faultAt first.characters index expected).message =
          (faultAt second.characters index expected).message) ∨
      ∃ program other, parse first.characters = ⟨some program, []⟩ ∧
        parse second.characters = ⟨some other, []⟩ ∧ SameMeaning first second program other := by
  rcases parse_of_same_tokens same cleanFirst cleanSecond with
    ⟨index, expected, within, fault, otherFault⟩ |
      ⟨program, other, parsed, otherParsed, forgotten⟩
  · exact .inl ⟨index, expected, within, fault, otherFault, message_faultAt same index expected⟩
  · exact .inr ⟨program, other, parsed, otherParsed,
      sameMeaning_of_forget parsed otherParsed forgotten⟩

/-- A chain on one line, and with a comment on lines of its own. -/
def oneLine : SourceFile :=
  .unnamed "emit -to :end:|sort x"

def manyLines : SourceFile :=
  .unnamed "emit // live\n  -to :end:\n| sort\tx // all of it"

theorem sameMeaning_oneLine_manyLines :
    (lex oneLine.characters).strays = [] ∧ (lex manyLines.characters).strays = [] ∧
      ∃ program other, parse oneLine.characters = ⟨some program, []⟩ ∧
        parse manyLines.characters = ⟨some other, []⟩ ∧
        SameMeaning oneLine manyLines program other := by
  have cleanFirst : (lex oneLine.characters).strays = [] := by decide
  have cleanSecond : (lex manyLines.characters).strays = [] := by decide
  have same : (lex oneLine.characters).tokens.map PlacedToken.token =
      (lex manyLines.characters).tokens.map PlacedToken.token := by
    decide
  refine ⟨cleanFirst, cleanSecond, ?_⟩
  rcases layout_has_no_meaning oneLine manyLines cleanFirst cleanSecond same with
    ⟨index, expected, -, fault, -⟩ | meaning
  · have isProgram : (parse oneLine.characters).program.isSome = true := by decide
    rw [fault] at isProgram
    cases isProgram
  · exact meaning

end Flowgraph
