import Flowgraph.Graph.Basic

/-!
# The order in which nodes are visited

A node can be visited once all nodes from which data flows to it have been.  Of
the nodes that can be visited the one with the least place comes first.  Each
node keeps count of the edges that it still waits for; visiting a node takes one
off the count for each edge that leaves it.  If nodes are left over that wait for
each other, the graph has a cycle.
-/

namespace Flowgraph

/-- A number put in its place in an ascending list. -/
def insertAscending (number : Nat) : List Nat → List Nat
  | [] => [number]
  | first :: rest =>
      if number ≤ first then number :: first :: rest else first :: insertAscending number rest

/-- How far the visit of a graph has come. -/
structure Traversal where
  /-- The visited nodes in order. -/
  visited : List Nat
  /-- The nodes that can be visited next, in ascending order. -/
  ready : List Nat
  /-- For each node the number of edges from nodes that have not been visited. -/
  waiting : List Int
deriving DecidableEq, Repr

namespace Traversal

/-- The visit before its first node: the nodes without predecessors are ready. -/
def start (graph : FlowGraph) : Traversal where
  visited := []
  ready := (List.range graph.size).filter fun node => (graph.predecessors node).isEmpty
  waiting := (List.range graph.size).map fun node => ((graph.predecessors node).length : Int)

/-- One edge less to wait for; a node that waits for no more is ready. -/
def release (traversal : Traversal) (node : Nat) : Traversal :=
  let waiting := traversal.waiting.modify node (· - 1)
  if waiting[node]? = some 0 then
    { traversal with waiting, ready := insertAscending node traversal.ready }
  else { traversal with waiting }

/-- Visit the first ready node. -/
def visit (graph : FlowGraph) (traversal : Traversal) : Traversal :=
  match traversal.ready with
  | [] => traversal
  | node :: others =>
      (graph.successors node).foldl release
        { traversal with visited := traversal.visited ++ [node], ready := others }

/-- The visit after a number of steps; one without ready nodes goes no further. -/
def after (graph : FlowGraph) : Nat → Traversal
  | 0 => start graph
  | steps + 1 => (after graph steps).visit graph

end Traversal

namespace FlowGraph

/--
The nodes in the order in which they are visited, or nothing if the graph has a
cycle.  As each step visits another node, there are as many steps as nodes.
-/
def order? (graph : FlowGraph) : Option (List Nat) :=
  let visited := (Traversal.after graph graph.size).visited
  if visited.length = graph.size then some visited else none

end FlowGraph

end Flowgraph
