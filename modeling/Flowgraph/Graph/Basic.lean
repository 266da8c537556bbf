import Flowgraph.Operator.Basic

/-!
# Operator graphs

A graph is a list of operators and a list of edges between them.  An operator is
known by its place in the list.  The order of the edges matters: it is the order
in which the inputs of an operator meet.
-/

namespace Flowgraph

/-- An operator of a graph. -/
structure Node where
  name : String
  kind : OperatorKind
  options : OperatorOptions
  location : Location
deriving DecidableEq, Repr

/-- Data flows from one node to another; both are known by their places. -/
structure Edge where
  source : Nat
  target : Nat
deriving DecidableEq, Repr

/-- The operators of a program and the flow of data between them. -/
structure FlowGraph where
  nodes : List Node
  edges : List Edge
deriving DecidableEq, Repr

namespace FlowGraph

/-- The graph without nodes. -/
def empty : FlowGraph := ⟨[], []⟩

/-- The number of nodes. -/
def size (graph : FlowGraph) : Nat :=
  graph.nodes.length

/-- The graph with one more node; its place is the size of the graph before. -/
def addNode (graph : FlowGraph) (node : Node) : FlowGraph :=
  { graph with nodes := graph.nodes ++ [node] }

/-- The graph with one more edge; an edge may be there more than once. -/
def addEdge (graph : FlowGraph) (source target : Nat) : FlowGraph :=
  { graph with edges := graph.edges ++ [⟨source, target⟩] }

/-- Every edge joins nodes of the graph. -/
def WellFormed (graph : FlowGraph) : Prop :=
  ∀ edge ∈ graph.edges, edge.source < graph.size ∧ edge.target < graph.size

instance (graph : FlowGraph) : Decidable graph.WellFormed :=
  inferInstanceAs (Decidable (∀ edge ∈ graph.edges, _))

/-- The nodes from which data flows to a node, in the order of the edges. -/
def predecessors (graph : FlowGraph) (node : Nat) : List Nat :=
  graph.edges.filterMap fun edge => if edge.target = node then some edge.source else none

/-- The nodes to which data flows from a node, in the order of the edges. -/
def successors (graph : FlowGraph) (node : Nat) : List Nat :=
  graph.edges.filterMap fun edge => if edge.source = node then some edge.target else none

/-- The predecessors of a node are the sources of the edges to it. -/
theorem mem_predecessors {graph : FlowGraph} {source target : Nat} :
    source ∈ graph.predecessors target ↔ ⟨source, target⟩ ∈ graph.edges := by
  simp only [predecessors, List.mem_filterMap, Option.ite_none_right_eq_some,
    Option.some.injEq]
  constructor
  · rintro ⟨⟨_, _⟩, member, rfl, rfl⟩
    exact member
  · intro member
    exact ⟨_, member, rfl, rfl⟩

/-- The successors of a node are the targets of the edges from it. -/
theorem mem_successors {graph : FlowGraph} {source target : Nat} :
    target ∈ graph.successors source ↔ ⟨source, target⟩ ∈ graph.edges := by
  simp only [successors, List.mem_filterMap, Option.ite_none_right_eq_some,
    Option.some.injEq]
  constructor
  · rintro ⟨⟨_, _⟩, member, rfl, rfl⟩
    exact member
  · intro member
    exact ⟨_, member, rfl, rfl⟩

/-! ## Text -/

/-- The name of a node in texts. -/
def nodeName (node : Nat) : String :=
  "n" ++ toString node

/-- A node as a line of text. -/
def nodeLine (place : Nat) (node : Node) : String :=
  nodeName place ++ " " ++ node.name ++ " <" ++ node.kind.name ++ ">" ++
    (if node.options.isEmpty then "" else " " ++ node.options.text) ++
    " @ " ++ node.location.text ++ "\n"

/-- An edge as a line of text. -/
def edgeLine (edge : Edge) : String :=
  nodeName edge.source ++ " -> " ++ nodeName edge.target ++ "\n"

/-- The graph as text: a line for each node, then a line for each edge. -/
def text (graph : FlowGraph) : String :=
  String.join (graph.nodes.mapIdx nodeLine) ++ String.join (graph.edges.map edgeLine)

end FlowGraph

end Flowgraph
