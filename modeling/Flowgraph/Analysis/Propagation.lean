import Flowgraph.Graph.Order

/-!
# The class of the data at every node

The data that reaches a node combines what its predecessors give out, in the
order of the edges.  What a node gives out follows from what reaches it by the
transform of its kind.  The nodes are visited in such an order that all
predecessors of a node come before it.
-/

namespace Flowgraph

/-- The class of the data before and after every node. -/
structure TemporalMap where
  /-- The order in which the nodes were visited. -/
  order : List Nat
  /-- The class that reaches each node. -/
  inputs : List TemporalClass
  /-- The class that each node gives out. -/
  outputs : List TemporalClass
deriving DecidableEq, Repr

namespace TemporalMap

/-- The class that reaches a node. -/
def input (classes : TemporalMap) (node : Nat) : TemporalClass :=
  classes.inputs.getD node .bounded

/-- The class that a node gives out. -/
def output (classes : TemporalMap) (node : Nat) : TemporalClass :=
  classes.outputs.getD node .bounded

/-- The number of nodes. -/
def size (classes : TemporalMap) : Nat :=
  classes.outputs.length

/-- The map before any node has been visited. -/
def start (graph : FlowGraph) (order : List Nat) : TemporalMap where
  order := order
  inputs := List.replicate graph.size .bounded
  outputs := List.replicate graph.size .bounded

/-- The map after a visit of a node. -/
def visit (graph : FlowGraph) (classes : TemporalMap) (place : Nat) : TemporalMap :=
  match graph.nodes[place]? with
  | none => classes
  | some node =>
      let input := TemporalClass.combine ((graph.predecessors place).map classes.output)
      let output := node.kind.transform.apply input node.options node.location
      { classes with
        inputs := classes.inputs.set place input
        outputs := classes.outputs.set place output }

/-- A node with its classes as a line of text. -/
def line (classes : TemporalMap) (place : Nat) (node : Node) : String :=
  FlowGraph.nodeName place ++ " " ++ node.name ++ ": " ++ (classes.input place).text ++ " -> " ++
    (classes.output place).text

/-- The nodes with their classes, a line each. -/
def lines (classes : TemporalMap) (graph : FlowGraph) : List String :=
  graph.nodes.mapIdx classes.line

/-- The record of a node with its classes. -/
def nodeRecord (classes : TemporalMap) (place : Nat) (node : Node) : Text.Json :=
  .object [("id", .number place), ("name", .text node.name), ("kind", .text node.kind.name),
    ("input", (classes.input place).record), ("output", (classes.output place).record)]

/-- The records of all nodes. -/
def records (classes : TemporalMap) (graph : FlowGraph) : List Text.Json :=
  graph.nodes.mapIdx classes.nodeRecord

end TemporalMap

/-- The class of the data at every node, or nothing if the graph has a cycle. -/
def FlowGraph.propagate? (graph : FlowGraph) : Option TemporalMap :=
  graph.order?.map fun order =>
    order.foldl (TemporalMap.visit graph) (TemporalMap.start graph order)

end Flowgraph
