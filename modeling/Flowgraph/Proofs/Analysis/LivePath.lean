import Flowgraph.Proofs.Analysis.Classes

/-!
# Ways of live data

A live path is a way along the edges from a source without end to a node, on which
no other source stands.  It has a class of its own: the class of the source, changed
by one operator after the other.  This says what may happen to the data of one source
without any regard to the other inputs that it meets on its way.

What reaches a node is at least as dangerous as the class of every live path to it
(`LivePath.rank_le_input`).
-/

namespace Flowgraph

/-- What a source gives out if its data does not end. -/
def Node.liveClass (node : Node) : TemporalClass :=
  if node.options.isWindowed then .liveWindowed node.location else .liveUnbounded node.location

theorem Node.emits_of_source {node : Node} (isSource : node.kind = .source)
    (unending : node.options.upperBound = .unending) (input : TemporalClass) :
    node.emits input = node.liveClass := by
  simp only [emits, isSource, OperatorKind.transform, Transform.apply, unending, liveClass]
  cases node.options.isWindowed <;> rfl

/-- The data of a source with an end is bounded. -/
theorem Node.emits_of_fixed {node : Node} (isSource : node.kind = .source)
    (fixed : node.options.upperBound = .fixed) (input : TemporalClass) :
    node.emits input = .bounded := by
  simp [emits, isSource, OperatorKind.transform, Transform.apply, fixed]

theorem Node.provenance?_liveClass (node : Node) :
    node.liveClass.provenance? = some node.location := by
  rw [liveClass]
  split <;> rfl

theorem Node.transform_ne_origin {node : Node} (passes : node.kind ≠ .source) :
    node.kind.transform ≠ .origin :=
  fun origin => passes ((OperatorKind.transform_eq_origin_iff _).mp origin)

namespace FlowGraph

/--
The data of a source without end reaches a node.  The list holds the operators
between them, the first after the source first, none of them a source; the class is
that of the source after all their transforms.
-/
inductive LivePath (graph : FlowGraph) (source : Nat) : List Nat → Nat → TemporalClass → Prop where
  | direct {node : Node} {place : Nat}
      (present : graph.nodes[source]? = some node)
      (isSource : node.kind = .source)
      (unending : node.options.upperBound = .unending)
      (flows : graph.Flows source place) :
      LivePath graph source [] place node.liveClass
  | through {inner : List Nat} {middle place : Nat} {reached : TemporalClass} {node : Node}
      (path : LivePath graph source inner middle reached)
      (present : graph.nodes[middle]? = some node)
      (passes : node.kind ≠ .source)
      (flows : graph.Flows middle place) :
      LivePath graph source (inner ++ [middle]) place (node.emits reached)

/-- Live paths depend on which edges there are, and on nothing else about them. -/
theorem LivePath.mono {graph other : FlowGraph} {source place : Nat} {inner : List Nat}
    {reached : TemporalClass} (path : graph.LivePath source inner place reached)
    (nodes : other.nodes = graph.nodes) (edges : graph.edges ⊆ other.edges) :
    other.LivePath source inner place reached := by
  induction path with
  | direct present isSource unending flows =>
      exact .direct (nodes ▸ present) isSource unending (edges flows)
  | through path present passes flows ih =>
      exact .through ih (nodes ▸ present) passes (edges flows)

variable {graph : FlowGraph} {classes : TemporalMap}

theorem WellFormed.exists_node (wellFormed : graph.WellFormed) {source target : Nat}
    (flows : graph.Flows source target) :
    (∃ node, graph.nodes[source]? = some node) ∧ ∃ node, graph.nodes[target]? = some node := by
  have valid := wellFormed.flows_lt flows
  exact ⟨⟨_, List.getElem?_eq_getElem valid.1⟩, ⟨_, List.getElem?_eq_getElem valid.2⟩⟩

/-- What a node gives out is no more dangerous than what reaches the nodes after it. -/
theorem rank_output_le_input (wellFormed : graph.WellFormed) (solves : classes.Solves graph)
    {source target : Nat} (flows : graph.Flows source target) :
    (classes.output source).rank ≤ (classes.input target).rank := by
  obtain ⟨node, present⟩ := (wellFormed.exists_node flows).2
  rw [(solves target node present).1]
  exact TemporalClass.rank_le_combine (List.mem_map_of_mem (mem_predecessors.mpr flows))

/-- What reaches a node is at least as dangerous as the data of each live path to it. -/
theorem LivePath.rank_le_input (wellFormed : graph.WellFormed) (solves : classes.Solves graph)
    {source place : Nat} {inner : List Nat} {reached : TemporalClass}
    (path : graph.LivePath source inner place reached) :
    reached.rank ≤ (classes.input place).rank := by
  induction path with
  | @direct node place present isSource unending flows =>
      have output : classes.output source = node.liveClass := by
        rw [(solves source node present).2, node.emits_of_source isSource unending]
      exact output ▸ rank_output_le_input wellFormed solves flows
  | @through inner middle place reached node path present passes flows ih =>
      calc
        (node.emits reached).rank ≤ (node.emits (classes.input middle)).rank :=
          Transform.rank_apply_mono (Node.transform_ne_origin passes) ih _ _
        _ = (classes.output middle).rank := by rw [(solves middle node present).2]
        _ ≤ (classes.input place).rank := rank_output_le_input wellFormed solves flows

end FlowGraph

end Flowgraph
