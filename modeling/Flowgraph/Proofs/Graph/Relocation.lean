import Flowgraph.Proofs.Graph.Wiring
import Flowgraph.Proofs.Operator.Relocation

/-!
# Wiring operators at other places

An operator has two places: the bytes that it was read from, and its number in the graph.
Moving the bytes does not change how operators are wired.  Numbering them from a later
number on, with the entries moved up alike, moves up both ends of every edge.  In neither
case do the errors say anything else.
-/

namespace Flowgraph

/-- What a node does, wherever it was read. -/
def Node.content (node : Node) : String × OperatorKind × OperatorOptions :=
  (node.name, node.kind, node.options)

/-- The edge between the nodes whose numbers are higher by a number. -/
def Edge.shift (number : Nat) (edge : Edge) : Edge :=
  ⟨edge.source + number, edge.target + number⟩

/-- Edges that are shifted by nothing stay as they are. -/
theorem Edge.map_shift_zero (edges : List Edge) : edges.map (Edge.shift 0) = edges :=
  List.map_id edges

/-- A part of a graph, numbered from a later number on. -/
structure Wiring.IsShifted (number : Nat) (wiring shifted : Wiring) : Prop where
  size : shifted.nodes.length = wiring.nodes.length
  edges : shifted.edges = wiring.edges.map (Edge.shift number)
  exits : shifted.exits = wiring.exits.map (· + number)

namespace Wiring.IsShifted

variable {number : Nat} {first second firstShifted secondShifted : Wiring}

/-- Wirings are shifted one after the other as each of them is. -/
theorem followedBy (isFirst : IsShifted number first firstShifted)
    (isSecond : IsShifted number second secondShifted) :
    IsShifted number (first.followedBy second) (firstShifted.followedBy secondShifted) where
  size := by simp [Wiring.followedBy, isFirst.size, isSecond.size]
  edges := by simp [Wiring.followedBy, isFirst.edges, isSecond.edges]
  exits := isSecond.exits

/-- Wirings are shifted side by side as each of them is. -/
theorem beside (isFirst : IsShifted number first firstShifted)
    (isSecond : IsShifted number second secondShifted) :
    IsShifted number (first.beside second) (firstShifted.beside secondShifted) where
  size := by simp [Wiring.beside, isFirst.size, isSecond.size]
  edges := by simp [Wiring.beside, isFirst.edges, isSecond.edges]
  exits := by simp [Wiring.beside, isFirst.exits, isSecond.exits]

end Wiring.IsShifted

section Wire

variable (move : Relocation) (source other : SourceFile) (number : Nat)

/-- Whether an operator is fed as it asks does not depend on where it stands. -/
theorem Operator.checkInputs_relocate (operator : Operator) (entries : List Nat) :
    Checked.Agree Eq (operator.checkInputs entries)
      ((operator.relocate move).checkInputs (entries.map (· + number))) := by
  simp only [checkInputs, relocate, List.isEmpty_map]
  cases operator.kind.isSource <;> cases entries.isEmpty <;>
    first | exact .refl _ | exact .error _ _ _ _

/-- An operator that is moved is wired as before, at its shifted place. -/
theorem Operator.wire_relocate (operator : Operator) (place : Nat) (entries : List Nat) :
    Checked.Agree (Wiring.IsShifted number) (operator.wire source place entries)
      ((operator.relocate move).wire other (place + number) (entries.map (· + number))) := by
  refine (operator.checkInputs_relocate move number entries).bind_eq fun _ => .pure ?_
  exact ⟨rfl, by simp [Edge.shift, Function.comp_def], rfl⟩

namespace Stage

mutual

/-- A stage that is moved is wired as before, at its shifted place. -/
theorem wire_relocate (stage : Stage Operator) (place : Nat) (entries : List Nat) :
    Checked.Agree (Wiring.IsShifted number) (stage.wire source place entries)
      ((stage.relocateOperators move).wire other (place + number) (entries.map (· + number))) := by
  cases stage with
  | step operator => exact operator.wire_relocate move source other number place entries
  | parallel branches span => exact wireBranches_relocate branches place entries

/-- A chain that is moved is wired as before, at its shifted place. -/
theorem wireChain_relocate (stages : List (Stage Operator)) (place : Nat) (entries : List Nat) :
    Checked.Agree (Wiring.IsShifted number) (wireChain source place entries stages)
      (wireChain other (place + number) (entries.map (· + number))
        (mapChain (Operator.relocate move) (Span.relocate move) stages)) := by
  cases stages with
  | nil => exact .pure ⟨rfl, rfl, rfl⟩
  | cons stage rest =>
      refine (wire_relocate stage place entries).bind fun first firstShifted isFirst => ?_
      rw [isFirst.size, isFirst.exits, Nat.add_right_comm]
      refine (wireChain_relocate rest _ _).bind fun others othersShifted isOthers => ?_
      exact .pure (isFirst.followedBy isOthers)

theorem wireBranches_relocate (branches : List (Flow Operator)) (place : Nat)
    (entries : List Nat) :
    Checked.Agree (Wiring.IsShifted number) (wireBranches source place entries branches)
      (wireBranches other (place + number) (entries.map (· + number))
        (mapBranches (Operator.relocate move) (Span.relocate move) branches)) := by
  cases branches with
  | nil => exact .pure ⟨rfl, rfl, rfl⟩
  | cons flow rest =>
      obtain ⟨stages, span⟩ := flow
      refine (wireChain_relocate stages place entries).bind fun chain chainShifted isChain => ?_
      rw [isChain.size, Nat.add_right_comm]
      refine (wireBranches_relocate rest _ _).bind fun others othersShifted isOthers => ?_
      exact .pure (isChain.beside isOthers)

end

end Stage

end Wire

namespace FlowGraph

/-- What is wrong with a program is what is wrong with the wiring of its chains. -/
theorem diagnostics_ofProgram (source : SourceFile) (chains : List (Flow Operator)) :
    (ofProgram source chains).diagnostics =
      (Stage.wireBranches source 0 [] chains).diagnostics := by
  simp [ofProgram]

/-- The nodes of a moved program hold what they held, but for their places. -/
theorem content_nodes_relocate (move : Relocation) (source other : SourceFile)
    (chains : List (Flow Operator)) :
    (ofProgram other (Stage.mapBranches (Operator.relocate move) (Span.relocate move)
        chains)).value.nodes.map Node.content =
      (ofProgram source chains).value.nodes.map Node.content := by
  simp [nodes_ofProgram, Stage.branchSteps_mapBranches, Function.comp_def, Node.content,
    Operator.node, Operator.relocate]

/-- Moved operators make the same graph up to the locations of its nodes. -/
theorem ofProgram_relocate (move : Relocation) (source other : SourceFile)
    (chains : List (Flow Operator)) :
    Checked.Agree
      (fun graph moved => moved.nodes.map Node.content = graph.nodes.map Node.content ∧
        moved.edges = graph.edges)
      (ofProgram source chains)
      (ofProgram other
        (Stage.mapBranches (Operator.relocate move) (Span.relocate move) chains)) := by
  have wired := Stage.wireBranches_relocate move source other 0 chains 0 []
  refine ⟨⟨content_nodes_relocate move source other chains, ?_⟩, ?_⟩
  · rw [edges_ofProgram, edges_ofProgram]
    exact wired.value.edges.trans (Edge.map_shift_zero _)
  · rw [diagnostics_ofProgram, diagnostics_ofProgram]
    exact wired.statements

end FlowGraph

/-! ## Programs one after the other -/

/-- It does not matter how wirings side by side are put together. -/
theorem Wiring.beside_assoc (first second third : Wiring) :
    (first.beside second).beside third = first.beside (second.beside third) := by
  simp [Wiring.beside]

namespace Stage

/-- The steps of branches are those of the first ones and then those of the others. -/
theorem branchSteps_append {α : Type} (first second : List (Flow α)) :
    branchSteps (first ++ second) = branchSteps first ++ branchSteps second := by
  induction first with
  | nil => rfl
  | cons flow rest ih => rw [List.cons_append, branchSteps, branchSteps, ih, List.append_assoc]

/-- More branches are wired behind the first ones, and their errors come behind theirs. -/
theorem wireBranches_append (source : SourceFile) (place : Nat) (entries : List Nat)
    (first second : List (Flow Operator)) :
    (wireBranches source place entries (first ++ second)).value =
        (wireBranches source place entries first).value.beside
          (wireBranches source (place + (branchSteps first).length) entries second).value ∧
      (wireBranches source place entries (first ++ second)).diagnostics =
        (wireBranches source place entries first).diagnostics ++
          (wireBranches source (place + (branchSteps first).length) entries
            second).diagnostics := by
  induction first generalizing place with
  | nil => exact ⟨rfl, rfl⟩
  | cons flow rest ih =>
      obtain ⟨stages, span⟩ := flow
      have places : place + (branchSteps (⟨stages, span⟩ :: rest)).length =
          place + (chainSteps stages).length + (branchSteps rest).length := by
        simp [branchSteps, Nat.add_assoc]
      simp only [List.cons_append, wireBranches, Checked.value_bind, Checked.value_pure,
        Checked.diagnostics_bind, Checked.diagnostics_pure, nodes_wireChain, List.length_map, ih,
        places, Wiring.beside_assoc, List.append_assoc, List.append_nil, and_self]

end Stage

namespace FlowGraph

/--
The graph of moved chains with other moved chains after them: the nodes of both, and the
edges of both, those of the second numbered from the size of the first on.
-/
theorem ofProgram_append_relocate (move moveLater : Relocation) (first second both : SourceFile)
    {chains later whole : List (Flow Operator)}
    (isWhole : whole =
      Stage.mapBranches (Operator.relocate move) (Span.relocate move) chains ++
        Stage.mapBranches (Operator.relocate moveLater) (Span.relocate moveLater) later) :
    (ofProgram both whole).value.nodes.map Node.content =
        (ofProgram first chains).value.nodes.map Node.content ++
          (ofProgram second later).value.nodes.map Node.content ∧
      (ofProgram both whole).value.edges =
        (ofProgram first chains).value.edges ++
          (ofProgram second later).value.edges.map
            (Edge.shift (ofProgram first chains).value.size) ∧
      (ofProgram both whole).diagnostics.map Diagnostic.statement =
        (ofProgram first chains).diagnostics.map Diagnostic.statement ++
          (ofProgram second later).diagnostics.map Diagnostic.statement := by
  have wired := ofProgram_relocate move first both chains
  have wiredLater := Stage.wireBranches_relocate moveLater second both
    (ofProgram first chains).value.size later 0 []
  have size : (Stage.branchSteps
        (Stage.mapBranches (Operator.relocate move) (Span.relocate move) chains)).length =
      (ofProgram first chains).value.size := by
    rw [Stage.branchSteps_mapBranches, List.length_map, size_ofProgram]
  obtain ⟨value, diagnostics⟩ := Stage.wireBranches_append both 0 []
    (Stage.mapBranches (Operator.relocate move) (Span.relocate move) chains)
    (Stage.mapBranches (Operator.relocate moveLater) (Span.relocate moveLater) later)
  rw [size] at value diagnostics
  subst isWhole
  refine ⟨?_, ?_, ?_⟩
  · rw [← content_nodes_relocate move first both chains,
      ← content_nodes_relocate moveLater second both later]
    simp only [nodes_ofProgram, Stage.branchSteps_append, List.map_append]
  · rw [edges_ofProgram, value, edges_ofProgram second, ← wiredLater.value.edges,
      ← wired.value.2, edges_ofProgram]
    rfl
  · rw [diagnostics_ofProgram, diagnostics, List.map_append, diagnostics_ofProgram second,
      wiredLater.statements, wired.statements, diagnostics_ofProgram]
    rfl

end FlowGraph

end Flowgraph
