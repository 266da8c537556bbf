import Flowgraph.Graph.Wiring
import Flowgraph.Proofs.Graph.Order

/-!
# The edges of wired operators

Operators that are wired from a place on take the places from there on, one after the
other.  An edge leads to one of these places, and it comes from an earlier place: one
of the part itself, or an entry.  So the edges to a node all stem from the part that
the node belongs to, and the graph of a program is visited in the order in which the
program is written (`order?_ofProgram`).
-/

namespace Flowgraph

/-- The sources of the edges to a node, in the order of the edges. -/
def sourcesOf (edges : List Edge) (target : Nat) : List Nat :=
  edges.filterMap fun edge => if edge.target = target then some edge.source else none

theorem FlowGraph.predecessors_eq_sourcesOf (graph : FlowGraph) (target : Nat) :
    graph.predecessors target = sourcesOf graph.edges target := rfl

@[simp]
theorem sourcesOf_append (first second : List Edge) (target : Nat) :
    sourcesOf (first ++ second) target = sourcesOf first target ++ sourcesOf second target :=
  List.filterMap_append

/-- Nothing comes from edges that lead elsewhere. -/
theorem sourcesOf_eq_nil {edges : List Edge} {target : Nat}
    (elsewhere : ∀ edge ∈ edges, edge.target ≠ target) :
    sourcesOf edges target = [] := by
  refine List.filterMap_eq_nil_iff.mpr fun edge member => ?_
  simp [elsewhere edge member]

/-- Edges from each of a list of nodes to one node have these nodes as their sources. -/
theorem sourcesOf_map (entries : List Nat) (target : Nat) :
    sourcesOf (entries.map fun entry => ⟨entry, target⟩) target = entries := by
  simp [sourcesOf, List.filterMap_map]

namespace Wiring

/--
The edges of a part lead forward to the places between two bounds, and its exits lie
before the second bound.
-/
structure Between (first last : Nat) (wiring : Wiring) : Prop where
  targets : ∀ edge ∈ wiring.edges, first ≤ edge.target ∧ edge.target < last
  forward : ∀ edge ∈ wiring.edges, edge.source < edge.target
  exits : ∀ place ∈ wiring.exits, place < last

/-- A wiring without nodes lets through what comes from before it. -/
theorem between_through {place : Nat} {entries : List Nat}
    (early : ∀ entry ∈ entries, entry < place) :
    (through entries).Between place place where
  targets := by simp [through]
  forward := by simp [through]
  exits := early

/-- Wirings of neighbouring places one after the other lie between the outer two. -/
theorem Between.followedBy {first middle last : Nat} {left right : Wiring}
    (leftBetween : left.Between first middle) (rightBetween : right.Between middle last)
    (ordered : first ≤ middle ∧ middle ≤ last) :
    (left.followedBy right).Between first last where
  targets := by
    intro edge member
    rcases List.mem_append.mp member with inLeft | inRight
    · have bounds := leftBetween.targets edge inLeft
      exact ⟨bounds.1, bounds.2.trans_le ordered.2⟩
    · have bounds := rightBetween.targets edge inRight
      exact ⟨ordered.1.trans bounds.1, bounds.2⟩
  forward := by
    intro edge member
    rcases List.mem_append.mp member with inLeft | inRight
    · exact leftBetween.forward edge inLeft
    · exact rightBetween.forward edge inRight
  exits := rightBetween.exits

/-- Wirings of neighbouring places side by side lie between the outer two. -/
theorem Between.beside {first middle last : Nat} {left right : Wiring}
    (leftBetween : left.Between first middle) (rightBetween : right.Between middle last)
    (ordered : first ≤ middle ∧ middle ≤ last) :
    (left.beside right).Between first last where
  targets := (leftBetween.followedBy rightBetween ordered).targets
  forward := (leftBetween.followedBy rightBetween ordered).forward
  exits := by
    intro place member
    rcases List.mem_append.mp member with inLeft | inRight
    · exact (leftBetween.exits place inLeft).trans_le ordered.2
    · exact rightBetween.exits place inRight

end Wiring

namespace Stage

mutual

/-- The edges of a stage lead to its own operators, and from these or what arrives. -/
theorem between_wire (source : SourceFile) {place : Nat} {entries : List Nat}
    (early : ∀ entry ∈ entries, entry < place) :
    (stage : Stage Operator) →
      (stage.wire source place entries).value.Between place (place + stage.steps.length)
  | step operator => by
      simp only [wire, Operator.wire, Checked.value_bind, Checked.value_pure, steps,
        List.length_singleton]
      constructor <;> simp +contextual [early]
  | parallel branches span => by
      simpa only [wire, steps] using between_wireBranches source early branches

/-- The edges of a chain lead to its own operators, and from these or what arrives. -/
theorem between_wireChain (source : SourceFile) {place : Nat} {entries : List Nat}
    (early : ∀ entry ∈ entries, entry < place) :
    (stages : List (Stage Operator)) →
      (wireChain source place entries stages).value.Between place
        (place + (chainSteps stages).length)
  | [] => by
      simp only [wireChain, Checked.value_pure, chainSteps, List.length_nil, Nat.add_zero]
      exact Wiring.between_through early
  | stage :: rest => by
      have first := between_wire source early stage
      have others := between_wireChain source first.exits rest
      simp only [wireChain, Checked.value_bind, Checked.value_pure, nodes_wire, List.length_map,
        chainSteps, List.length_append, ← Nat.add_assoc]
      exact first.followedBy others (by omega)

theorem between_wireBranches (source : SourceFile) {place : Nat} {entries : List Nat}
    (early : ∀ entry ∈ entries, entry < place) :
    (branches : List (Flow Operator)) →
      (wireBranches source place entries branches).value.Between place
        (place + (branchSteps branches).length)
  | [] => by
      simp only [wireBranches, Checked.value_pure, branchSteps, List.length_nil, Nat.add_zero]
      exact Wiring.between_through (by simp)
  | ⟨stages, span⟩ :: rest => by
      have chain := between_wireChain source early stages
      have later : ∀ entry ∈ entries, entry < place + (chainSteps stages).length :=
        fun entry member => (early entry member).trans_le (Nat.le_add_right _ _)
      have others := between_wireBranches source later rest
      simp only [wireBranches, Checked.value_bind, Checked.value_pure, nodes_wireChain,
        List.length_map, branchSteps, List.length_append, ← Nat.add_assoc]
      exact chain.beside others (by omega)

end

end Stage

namespace FlowGraph

/-- The nodes of a graph are the operators of its program, in the order of the text. -/
theorem nodes_ofProgram (source : SourceFile) (chains : List (Flow Operator)) :
    (ofProgram source chains).value.nodes =
      (Stage.branchSteps chains).map fun operator => operator.node source := by
  simp [ofProgram]

/-- A graph has as many nodes as there are operators. -/
theorem size_ofProgram (source : SourceFile) (chains : List (Flow Operator)) :
    (ofProgram source chains).value.size = (Stage.branchSteps chains).length := by
  simp [size, nodes_ofProgram]

/-- The edges of a graph are those of its wired chains. -/
theorem edges_ofProgram (source : SourceFile) (chains : List (Flow Operator)) :
    (ofProgram source chains).value.edges =
      (Stage.wireBranches source 0 [] chains).value.edges := by
  simp [ofProgram]

/-- The edges of a graph are edges between its nodes. -/
theorem between_ofProgram (source : SourceFile) (chains : List (Flow Operator)) :
    (Stage.wireBranches source 0 [] chains).value.Between 0
      (ofProgram source chains).value.size := by
  rw [size_ofProgram, ← Nat.zero_add (Stage.branchSteps chains).length]
  exact Stage.between_wireBranches source (by simp) chains

/-- The edges of a program lead forward. -/
theorem forward_ofProgram (source : SourceFile) (chains : List (Flow Operator)) :
    ∀ edge ∈ (ofProgram source chains).value.edges, edge.source < edge.target := by
  rw [edges_ofProgram]
  exact (between_ofProgram source chains).forward

/-- Every edge of the graph of a program joins two of its nodes. -/
theorem wellFormed_ofProgram (source : SourceFile) (chains : List (Flow Operator)) :
    (ofProgram source chains).value.WellFormed := by
  intro edge member
  have forward := forward_ofProgram source chains edge member
  rw [edges_ofProgram] at member
  have target := ((between_ofProgram source chains).targets edge member).2
  exact ⟨forward.trans target, target⟩

/-- The operators of a program are visited in the order in which they are written. -/
theorem order?_ofProgram (source : SourceFile) (chains : List (Flow Operator)) :
    (ofProgram source chains).value.order? =
      some (List.range (Stage.branchSteps chains).length) := by
  rw [order?_of_ascending (wellFormed_ofProgram source chains) (forward_ofProgram source chains),
    size_ofProgram]

/-- The graph of a program has no circle, since its edges lead from earlier to later nodes. -/
theorem acyclic_ofProgram (source : SourceFile) (chains : List (Flow Operator)) :
    (ofProgram source chains).value.Acyclic :=
  acyclic_of_ascending (forward_ofProgram source chains)

end FlowGraph

end Flowgraph
