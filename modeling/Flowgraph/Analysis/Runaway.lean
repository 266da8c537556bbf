import Flowgraph.Analysis.Propagation
import Flowgraph.Diagnostic

/-!
# Runaway programs

A program runs away when an operator that has to see the end of its data receives
live data without windows: it would keep all of it and never give anything out.
The source of the live data is to blame, not the operator.
-/

namespace Flowgraph

/-- An operator that live data passes through on its way. -/
structure Hop where
  name : String
  transform : Transform
  location : Location
deriving DecidableEq, Repr

/-- What an operator does to the live data that passes through it. -/
def Hop.description (hop : Hop) : String :=
  match hop.transform with
  | .unwindow => "`" ++ hop.name ++ "` removes the window boundaries"
  | .window => "`" ++ hop.name ++ "` windows the stream"
  | .origin | .preserve => "the live stream passes through `" ++ hop.name ++ "`"

/-- An operator that never sees the end of its data. -/
structure Violation where
  /-- The place of the operator in the graph. -/
  node : Nat
  operatorName : String
  operatorLocation : Location
  /-- The location of the source of the live data. -/
  provenance : Location
  /-- The operators between the source and the operator, the first after the source first. -/
  path : List Hop
deriving DecidableEq, Repr

namespace Violation

/-- The code of every violation. -/
def code : DiagnosticCode := .runawayProgram

/-- The message about a violation. -/
def message (violation : Violation) : String :=
  "Cannot run a program that would buffer live data forever: `" ++ violation.operatorName ++
    "` never sees the end of its input"

/-- The remedy that every violation hints at. -/
def remedy : String :=
  "window the stream with `batch -every :<interval>:` before this operator, or give the source " ++
    "an upper bound (-to, -last)"

/--
A violation as a diagnostic: its place is the source of the live data, a related
place is the operator, and each operator on the way is a cause.
-/
def diagnostic (violation : Violation) : Diagnostic :=
  let blamed := Diagnostic.error code violation.provenance.span violation.message
  let related := blamed.withRelated violation.operatorLocation.span
    ("`" ++ violation.operatorName ++ "` buffers its whole input here")
  (violation.path.foldl
    (fun diagnostic hop => diagnostic.withCause hop.description (some hop.location.span))
    related).withHint remedy

/-- The report of a violation: its place is the source of the live data. -/
def report (violation : Violation) : ErrorReport where
  code := code.text
  message := violation.message
  location := violation.provenance

end Violation

namespace FlowGraph

/--
The way back from a node along the class that reached it: each step goes to the
first predecessor that gives out this class, up to a source.  The last operator
before the node comes first.  The graph has no cycle, so that a way of as many
steps as there are nodes never ends early.
-/
def wayBack (graph : FlowGraph) (classes : TemporalMap) : Nat → Nat → List Hop
  | 0, _ => []
  | steps + 1, place =>
      let giver := (graph.predecessors place).find? fun predecessor =>
        classes.output predecessor = classes.input place
      match giver with
      | none => []
      | some predecessor =>
          match graph.nodes[predecessor]? with
          | none => []
          | some node =>
              if node.kind.transform = .origin then []
              else
                ⟨node.name, node.kind.transform, node.location⟩ ::
                  graph.wayBack classes steps predecessor

/-- The operators between the blamed source and a node, the first after the source first. -/
def livePath (graph : FlowGraph) (classes : TemporalMap) (place : Nat) : List Hop :=
  (graph.wayBack classes graph.size place).reverse

/-- The violation at a node, if what reaches the node does not meet its requirement. -/
def violationAt? (graph : FlowGraph) (classes : TemporalMap) (place : Nat) : Option Violation :=
  match graph.nodes[place]? with
  | none => none
  | some node =>
      let input := classes.input place
      if node.kind.requirement.admits input then none
      else
        input.provenance?.map fun provenance =>
          { node := place
            operatorName := node.name
            operatorLocation := node.location
            provenance
            path := graph.livePath classes place }

/-- All violations, in the order in which the nodes are visited. -/
def violations (graph : FlowGraph) (classes : TemporalMap) : List Violation :=
  classes.order.filterMap (graph.violationAt? classes)

/-- All violations of a graph, or nothing if it has a cycle. -/
def findViolations? (graph : FlowGraph) : Option (List Violation) :=
  graph.propagate?.map graph.violations

/--
The graph itself if it has no violation, and the report of its first violation
if it has one; nothing if it has a cycle.
-/
def analyze? (graph : FlowGraph) : Option (Except ErrorReport FlowGraph) :=
  graph.findViolations?.map fun found =>
    match found with
    | [] => .ok graph
    | first :: _ => .error first.report

end FlowGraph

end Flowgraph
