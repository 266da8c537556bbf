import Flowgraph.Proofs.Compile.Composition
import Flowgraph.Proofs.Compile.Layout
import Flowgraph.Proofs.Graph.Stages
import Flowgraph.Proofs.Operator.Validity

/-!
# The graph of a program

The graph of a program has a node for each operator and joins each stage of a chain with
the next.  It has no cycle, and a source has no input and any other operator has one, unless
an error says so (`graph_wires_stages`).

That all edges are those between stages, once and in order, needs that no chain is empty.
A text has no empty chains, since the grammar has none, and if there are no errors each of
its calls becomes an operator (`filled_operators_of_parse`).
-/

namespace Flowgraph

/-! ## Chains of texts -/

/-- Every chain of the grammar has a stage. -/
theorem ChainTree.stages_ne_nil (reach : Nat → Nat) (tree : ChainTree) :
    tree.stages reach ≠ [] := by
  cases tree <;> exact List.cons_ne_nil _ _

mutual

/-- The blocks of a stage of the grammar are not empty. -/
theorem StageTree.filled_stage (reach : Nat → Nat) (tree : StageTree) :
    (tree.stage reach).Filled := by
  cases tree with
  | proc proc => trivial
  | block opening branches closing => exact branches.filled_flows reach

/-- The blocks of a chain of the grammar are not empty. -/
theorem ChainTree.filled_stages (reach : Nat → Nat) (tree : ChainTree) :
    Stage.FilledChain (tree.stages reach) := by
  cases tree with
  | last stage => exact ⟨stage.filled_stage reach, trivial⟩
  | more stage bar rest => exact ⟨stage.filled_stage reach, rest.filled_stages reach⟩

/-- The grammar has no empty chain. -/
theorem ChainTrees.filled_flows (reach : Nat → Nat) (trees : ChainTrees) :
    Stage.FilledBranches (trees.flows reach) := by
  cases trees with
  | last chain semicolon =>
      exact ⟨chain.stages_ne_nil reach, chain.filled_stages reach, trivial⟩
  | more chain semicolon rest =>
      exact ⟨chain.stages_ne_nil reach, chain.filled_stages reach, rest.filled_flows reach⟩

end

/-- The blocks of a parsed program are not empty. -/
theorem filled_of_parse {text : List Char} {program : Program}
    (parsed : parse text = ⟨some program, []⟩) : Stage.FilledBranches program.chains := by
  obtain ⟨tree, -, chains⟩ := exists_tree_of_parse parsed
  rw [chains]
  cases tree with
  | empty => trivial
  | chains all => exact all.filled_flows (afterTrivia text)

namespace Stage

variable {α β : Type} (onStep : α → β) (onSpan : Span → Span)

mutual

theorem filled_map_iff (stage : Stage α) : (stage.map onStep onSpan).Filled ↔ stage.Filled := by
  cases stage with
  | step value => exact Iff.rfl
  | parallel branches span => exact filledBranches_mapBranches_iff branches

theorem filledChain_mapChain_iff (stages : List (Stage α)) :
    FilledChain (mapChain onStep onSpan stages) ↔ FilledChain stages := by
  cases stages with
  | nil => exact Iff.rfl
  | cons stage rest => exact and_congr (filled_map_iff stage) (filledChain_mapChain_iff rest)

/-- Other steps in the same places leave no chain empty that was not empty before. -/
theorem filledBranches_mapBranches_iff (branches : List (Flow α)) :
    FilledBranches (mapBranches onStep onSpan branches) ↔ FilledBranches branches := by
  cases branches with
  | nil => exact Iff.rfl
  | cons flow rest =>
      obtain ⟨stages, span⟩ := flow
      have nonempty : mapChain onStep onSpan stages ≠ [] ↔ stages ≠ [] := by
        simp [mapChain_eq_map]
      exact and_congr nonempty
        (and_congr (filledChain_mapChain_iff stages) (filledBranches_mapBranches_iff rest))

end

end Stage

/-- No chain of a text without errors is empty. -/
theorem filled_operators_of_parse {text : List Char} {program : Program}
    (parsed : parse text = ⟨some program, []⟩) (lowered : program.operators.diagnostics = []) :
    Stage.FilledBranches program.operators.value := by
  have valid : ∀ call ∈ Stage.branchSteps program.chains, call.Valid := by
    intro call member
    have clean := (Stage.branchOperators_clean_iff program.chains).mp lowered call member
    exact (ProcCall.operator?_clean_iff call).mp clean
  have same : Stage.mapBranches some id program.operators.value =
      Stage.mapBranches ProcCall.meaning? id program.chains := by
    rw [Program.operators, Stage.branchOperators_value]
    exact Stage.keepBranches_of_forall fun call member => (valid call member).exists_operator
  rw [← Stage.filledBranches_mapBranches_iff some id, same,
    Stage.filledBranches_mapBranches_iff]
  exact filled_of_parse parsed

/-! ## Sources and inputs -/

namespace FlowGraph

/--
An operator fits its place exactly if it is a source without an input or has an input and is
none.
-/
theorem inputError?_eq_none_iff (operator : Operator) (hasInput : Bool) :
    operator.inputError? hasInput = none ↔ operator.kind.isSource ≠ hasInput := by
  simp [Operator.inputError?]

/-- Where no error says otherwise, the nodes without inputs are the sources. -/
theorem predecessors_eq_nil_iff {source : SourceFile} {chains : List (Flow Operator)}
    (accepted : (ofProgram source chains).diagnostics = []) {place : Nat} {node : Node}
    (present : (ofProgram source chains).value.nodes[place]? = some node) :
    (ofProgram source chains).value.predecessors place = [] ↔ node.kind = .source := by
  rw [diagnostics_ofProgram_eq, inputErrors, List.filterMap_eq_nil_iff] at accepted
  rw [nodes_ofProgram, List.getElem?_map, Option.map_eq_some_iff] at present
  obtain ⟨operator, isOperator, rfl⟩ := present
  have noError := accepted (operator, place) (List.mem_zipIdx_iff_getElem?.mpr isOperator)
  rw [inputError?_eq_none_iff, ← predecessors_eq_sourcesOf] at noError
  have same : operator.kind.isSource =
      ((ofProgram source chains).value.predecessors place).isEmpty := by
    simpa using noError
  have isSource : operator.kind.isSource = true ↔ operator.kind = .source := by
    simp [OperatorKind.isSource]
  rw [Operator.node, ← isSource, same, List.isEmpty_iff]

end FlowGraph

/--
The graph of a program has a node for each operator, in the order in which they are written,
and its edges lead forward.  An operator has an error exactly if it is a source with an input
or another operator without one.  If no chain is empty, the edges are those from the exits of
each stage to the entries of the next, each of them once, in the order of their targets and
then of their sources.  The nodes of a text have different locations.
-/
theorem graph_wires_stages (source : SourceFile) (chains : List (Flow Operator)) :
    let graph := (FlowGraph.ofProgram source chains).value
    let errors := (FlowGraph.ofProgram source chains).diagnostics
    graph.nodes = (Stage.branchSteps chains).map (fun operator => operator.node source) ∧
      (∀ edge ∈ graph.edges, edge.source < edge.target ∧ edge.target < graph.size) ∧
      graph.Acyclic ∧
      (errors = (Stage.branchSteps chains).zipIdx.filterMap fun (operator, place) =>
        operator.inputError? !(graph.predecessors place).isEmpty) ∧
      (errors = [] → ∀ place node, graph.nodes[place]? = some node →
        (graph.predecessors place = [] ↔ node.kind = .source)) ∧
      (Stage.FilledBranches chains →
        graph.edges.Pairwise Edge.Before ∧ graph.edges.Nodup ∧
        ∀ first second, ⟨first, second⟩ ∈ graph.edges ↔ Stage.Connects 0 chains first second) ∧
      ∀ program, source.program = .ok program → chains = program.operators.value →
        (graph.nodes.map Node.location).Nodup ∧
        (program.operators.diagnostics = [] → Stage.FilledBranches chains) := by
  refine ⟨FlowGraph.nodes_ofProgram source chains, ?_, FlowGraph.acyclic_ofProgram source chains,
    FlowGraph.diagnostics_ofProgram_eq source chains, ?_, ?_, ?_⟩
  · intro edge member
    exact ⟨FlowGraph.forward_ofProgram source chains edge member,
      (FlowGraph.wellFormed_ofProgram source chains edge member).2⟩
  · intro accepted place node present
    exact FlowGraph.predecessors_eq_nil_iff accepted present
  · intro filled
    have ascending := FlowGraph.edges_ofProgram_ascending source filled
    refine ⟨ascending, ascending.imp Edge.Before.ne, ?_⟩
    intro first second
    exact FlowGraph.mem_edges_ofProgram_iff source filled ⟨first, second⟩
  · rintro program parsed rfl
    have read := SourceFile.program_eq_ok_iff.mp parsed
    exact ⟨nodup_locations read, filled_operators_of_parse read⟩

/-- Two sources side by side, and a block within a block after them. -/
def nestedBlocks : SourceFile :=
  .unnamed "(emit; emit) | (head 1; (tail; sort x) | merge) | view t"

theorem graph_wires_stages_nestedBlocks :
    ∃ program, nestedBlocks.program = .ok program ∧
      program.operators.diagnostics = [] ∧
      ((program.built nestedBlocks).value.nodes.map Node.location).Nodup ∧
      (program.built nestedBlocks).value.edges.Nodup ∧
      Stage.Connects 0 program.operators.value 2 6 ∧
      ¬ Stage.Connects 0 program.operators.value 3 6 := by
  have computed : (match nestedBlocks.program with
      | .ok program => decide (program.operators.diagnostics = [] ∧
          (program.built nestedBlocks).value.edges = [⟨0, 2⟩, ⟨1, 2⟩, ⟨0, 3⟩, ⟨1, 3⟩, ⟨0, 4⟩,
            ⟨1, 4⟩, ⟨3, 5⟩, ⟨4, 5⟩, ⟨2, 6⟩, ⟨5, 6⟩])
      | .error _ => false) = true := by
    decide +kernel
  cases parsed : nestedBlocks.program with
  | error found => simp [parsed] at computed
  | ok program =>
      rw [parsed] at computed
      obtain ⟨clean, edges⟩ := of_decide_eq_true computed
      obtain ⟨-, -, -, -, -, wired, ofText⟩ :=
        graph_wires_stages nestedBlocks program.operators.value
      obtain ⟨distinct, filled⟩ := ofText program parsed rfl
      obtain ⟨-, nodup, connects⟩ := wired (filled clean)
      refine ⟨program, rfl, clean, distinct, nodup, (connects 2 6).mp ?_, mt (connects 3 6).mpr ?_⟩
      · rw [edges]
        decide
      · rw [edges]
        decide

end Flowgraph
