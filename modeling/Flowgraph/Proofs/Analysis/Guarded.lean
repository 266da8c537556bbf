import Flowgraph.Proofs.Analysis.Blame
import Flowgraph.Proofs.Graph.Wiring
import Flowgraph.Proofs.Source.Guarded

/-!
# Analyses without a failure

The analyses look up nodes, counts and classes by number, take one off a count, and walk back
along the edges until there is no further way.  A guarded analysis gives nothing if a number
is out of range, if a count would fall below zero, or if the walk has not ended in time.

On a graph whose edges join its nodes and lead forward, as those of every program do, the
guarded analyses give what the analyses give (`guardedPropagate_eq`, `guardedViolations_eq`).
-/

namespace Flowgraph

/-! ## The order of the nodes -/

namespace Traversal

/-- Take one edge off the count of a node, if there is a count and it is not zero yet. -/
def guardedRelease (traversal : Traversal) (node : Nat) : Option Traversal := do
  let count ← traversal.waiting[node]?
  if 0 < count then return traversal.release node else none

/-- Visit the first ready node, if it is one of the graph. -/
def guardedVisit (graph : FlowGraph) (traversal : Traversal) : Option Traversal :=
  match traversal.ready with
  | [] => some traversal
  | node :: others =>
      if node < graph.size then
        (graph.successors node).foldlM guardedRelease
          { traversal with visited := traversal.visited ++ [node], ready := others }
      else none

/-- The visit after a number of steps, if nothing goes wrong in them. -/
def guardedAfter (graph : FlowGraph) : Nat → Option Traversal
  | 0 => some (start graph)
  | steps + 1 => (guardedAfter graph steps).bind (guardedVisit graph)

variable {graph : FlowGraph} {traversal : Traversal}

/-- Nodes that have not been visited are released without a count below zero. -/
theorem foldlM_guardedRelease {pending : List Nat}
    (invariant : traversal.Invariant graph pending)
    (bound : ∀ node ∈ pending, node < graph.size)
    (unvisited : ∀ node ∈ pending, node ∉ traversal.visited) :
    pending.foldlM guardedRelease traversal = some (pending.foldl release traversal) := by
  induction pending generalizing traversal with
  | nil => rfl
  | cons node rest ih =>
      have here := bound node (List.mem_cons_self ..)
      have step := invariant.release here (unvisited node (List.mem_cons_self ..))
      have counted : guardedRelease traversal node = some (traversal.release node) := by
        simp only [guardedRelease, invariant.waiting node here, Option.bind_eq_bind,
          Option.bind_some, List.count_cons_self]
        rw [if_pos (by omega)]
        rfl
      have later := ih step (fun other member => bound other (List.mem_cons_of_mem _ member))
        fun other member => by
          rw [visited_release]
          exact unvisited other (List.mem_cons_of_mem _ member)
      rw [List.foldlM_cons, counted]
      exact later

/-- The next node is visited without a failure. -/
theorem guardedVisit_eq (wellFormed : graph.WellFormed) (invariant : traversal.Invariant graph []) :
    guardedVisit graph traversal = some (traversal.visit graph) := by
  rw [guardedVisit, visit]
  cases first : traversal.ready with
  | nil => rfl
  | cons node others =>
      obtain ⟨bound, -⟩ := (invariant.ready node).mp (by simp [first])
      obtain ⟨targets, unvisited⟩ := invariant.targets wellFormed first
      simp only [if_pos bound]
      exact foldlM_guardedRelease (invariant.take first) targets unvisited

/-- Any number of nodes is visited without a failure. -/
theorem guardedAfter_eq (wellFormed : graph.WellFormed) (steps : Nat) :
    guardedAfter graph steps = some (after graph steps) := by
  induction steps with
  | zero => rfl
  | succ steps ih =>
      rw [guardedAfter, ih, Option.bind_some]
      exact guardedVisit_eq wellFormed (after_invariant wellFormed steps)

/-- When all nodes of a graph whose edges lead forward have been visited, none is ready. -/
theorem ready_after_size (wellFormed : graph.WellFormed)
    (ascending : ∀ edge ∈ graph.edges, edge.source < edge.target) :
    (after graph graph.size).ready = [] := by
  have invariant := after_invariant wellFormed graph.size
  have visited := visited_after_of_ascending wellFormed ascending (le_refl graph.size)
  rw [List.eq_nil_iff_forall_not_mem]
  intro node isReady
  obtain ⟨bound, unvisited, -⟩ := (invariant.ready node).mp isReady
  exact unvisited (visited ▸ List.mem_range.mpr bound)

end Traversal

/-! ## Classes -/

/-- Visit a node: its predecessors must have a class, and there must be room for its own. -/
def TemporalMap.guardedVisit (graph : FlowGraph) (classes : TemporalMap) (place : Nat) :
    Option TemporalMap := do
  let node ← graph.nodes[place]?
  let given ← (graph.predecessors place).mapM fun predecessor => classes.outputs[predecessor]?
  let input := TemporalClass.combine given
  let output := node.kind.transform.apply input node.options node.location
  if place < classes.inputs.length ∧ place < classes.outputs.length then
    return { classes with
      inputs := classes.inputs.set place input
      outputs := classes.outputs.set place output }
  else none

/-- There is a class for what each node receives. -/
theorem TemporalMap.Fits.getElem?_inputs {graph : FlowGraph} {classes : TemporalMap}
    (fits : classes.Fits graph) {place : Nat} (bound : place < graph.size) :
    classes.inputs[place]? = some (classes.input place) := by
  have inRange := fits.1 ▸ bound
  rw [input, List.getD_eq_getElem?_getD, List.getElem?_eq_getElem inRange, Option.getD_some]

/-- There is a class for what each node gives out. -/
theorem TemporalMap.Fits.getElem?_outputs {graph : FlowGraph} {classes : TemporalMap}
    (fits : classes.Fits graph) {place : Nat} (bound : place < graph.size) :
    classes.outputs[place]? = some (classes.output place) := by
  have inRange := fits.2 ▸ bound
  rw [output, List.getD_eq_getElem?_getD, List.getElem?_eq_getElem inRange, Option.getD_some]

namespace FlowGraph

/-- The order of the nodes, if the counts stay above zero and the visit ends with all nodes. -/
def guardedOrder (graph : FlowGraph) : Option (List Nat) := do
  let final ← Traversal.guardedAfter graph graph.size
  if graph.WellFormed ∧ final.ready = [] ∧ final.visited.length = graph.size then
    return final.visited
  else none

/-- The classes of all nodes, if the graph has an order and every visit succeeds. -/
def guardedPropagate (graph : FlowGraph) : Option TemporalMap := do
  let order ← graph.guardedOrder
  order.foldlM (TemporalMap.guardedVisit graph) (TemporalMap.start graph order)

/-- The way back from a node; there is none if it has not ended after a number of steps. -/
def guardedWayBack (graph : FlowGraph) (classes : TemporalMap) : Nat → Nat → Option (List Hop)
  | 0, _ => none
  | steps + 1, place => do
      let input ← classes.inputs[place]?
      let given ← (graph.predecessors place).mapM fun predecessor =>
        (classes.outputs[predecessor]?).map fun output => (predecessor, output)
      match given.find? fun (_, output) => output = input with
      | none => return []
      | some (predecessor, _) =>
          let node ← graph.nodes[predecessor]?
          if node.kind.transform = .origin then return []
          else
            let others ← graph.guardedWayBack classes steps predecessor
            return ⟨node.name, node.kind.transform, node.location⟩ :: others

/-- The violation at a node, if there is one, where everything that is looked up is there. -/
def guardedViolationAt (graph : FlowGraph) (classes : TemporalMap) (place : Nat) :
    Option (Option Violation) := do
  let node ← graph.nodes[place]?
  let input ← classes.inputs[place]?
  if node.kind.requirement.admits input then return none
  else
    match input.provenance? with
    | none => return none
    | some provenance =>
        let back ← graph.guardedWayBack classes (graph.size + 1) place
        return some
          { node := place
            operatorName := node.name
            operatorLocation := node.location
            provenance
            path := back.reverse }

/-- All violations, where everything that is looked up is there. -/
def guardedViolations (graph : FlowGraph) (classes : TemporalMap) : Option (List Violation) := do
  return (← classes.order.mapM (graph.guardedViolationAt classes)).reduceOption

variable {graph : FlowGraph} {classes : TemporalMap}

section Fits

variable (wellFormed : graph.WellFormed) (fits : classes.Fits graph)

include wellFormed fits

/-- The classes that arrive at a node are all there. -/
theorem mapM_outputs (place : Nat) :
    ((graph.predecessors place).mapM fun predecessor => classes.outputs[predecessor]?) =
      some ((graph.predecessors place).map classes.output) := by
  refine mapM_eq_some_map fun predecessor flows => ?_
  exact fits.getElem?_outputs (wellFormed.flows_lt (mem_predecessors.mp flows)).1

/-- A node is visited without a failure. -/
theorem guardedVisit_eq {place : Nat} (bound : place < graph.size) :
    classes.guardedVisit graph place = some (classes.visit graph place) := by
  have present : graph.nodes[place]? = some graph.nodes[place] := List.getElem?_eq_getElem bound
  rw [TemporalMap.guardedVisit, TemporalMap.visit, present]
  simp only [Option.bind_eq_bind, Option.bind_some, mapM_outputs wellFormed fits]
  rw [if_pos ⟨fits.1 ▸ bound, fits.2 ▸ bound⟩]
  rfl

/-- The nodes of an order are visited without a failure. -/
theorem foldlM_guardedVisit {order : List Nat} (bound : ∀ place ∈ order, place < graph.size) :
    order.foldlM (TemporalMap.guardedVisit graph) classes =
      some (order.foldl (TemporalMap.visit graph) classes) := by
  induction order generalizing classes with
  | nil => rfl
  | cons place rest ih =>
      rw [List.foldlM_cons, guardedVisit_eq wellFormed fits (bound place (List.mem_cons_self ..))]
      exact ih (fits.visit place) fun other member => bound other (List.mem_cons_of_mem _ member)

end Fits

section Ascending

variable (wellFormed : graph.WellFormed)
  (ascending : ∀ edge ∈ graph.edges, edge.source < edge.target)

include wellFormed ascending

/-- A graph whose edges ascend is put in order without a failure. -/
theorem guardedOrder_eq : graph.guardedOrder = some (List.range graph.size) := by
  have visited := Traversal.visited_after_of_ascending wellFormed ascending (le_refl graph.size)
  have ready := Traversal.ready_after_size wellFormed ascending
  rw [guardedOrder, Traversal.guardedAfter_eq wellFormed]
  simp [wellFormed, ready, visited]

/-- The classes of a graph whose edges lead forward are found without a failure. -/
theorem guardedPropagate_eq : graph.guardedPropagate = graph.propagate? := by
  rw [guardedPropagate, guardedOrder_eq wellFormed ascending, propagate?,
    order?_of_ascending wellFormed ascending]
  exact foldlM_guardedVisit wellFormed (TemporalMap.fits_start graph _) fun _ => List.mem_range.mp

variable (fits : classes.Fits graph)

include fits

/-- The way back along edges that lead forward ends after no more steps than places before. -/
theorem guardedWayBack_eq {place guardedSteps steps : Nat} (bound : place < graph.size)
    (enough : place < guardedSteps) (enoughSteps : place ≤ steps) :
    graph.guardedWayBack classes guardedSteps place =
      some (graph.wayBack classes steps place) := by
  induction place using Nat.strongRecOn generalizing guardedSteps steps with
  | ind place ih =>
      obtain ⟨left, rfl⟩ := Nat.exists_eq_succ_of_ne_zero (Nat.ne_zero_of_lt enough)
      have input := fits.getElem?_inputs bound
      have given : ((graph.predecessors place).mapM fun predecessor =>
          (classes.outputs[predecessor]?).map fun output => (predecessor, output)) =
            some ((graph.predecessors place).map fun predecessor =>
              (predecessor, classes.output predecessor)) := by
        refine mapM_eq_some_map fun predecessor flows => ?_
        rw [fits.getElem?_outputs (wellFormed.flows_lt (mem_predecessors.mp flows)).1,
          Option.map_some]
      rw [guardedWayBack]
      simp only [input, given, Option.bind_eq_bind, Option.bind_some, List.find?_map,
        Function.comp_def]
      cases giver : (graph.predecessors place).find? fun predecessor =>
          decide (classes.output predecessor = classes.input place) with
      | none => cases steps <;> simp [wayBack, giver]
      | some predecessor =>
          have flows := mem_predecessors.mp (List.mem_of_find?_eq_some giver)
          have earlier : predecessor < place := ascending _ flows
          have inRange := (wellFormed.flows_lt flows).1
          obtain ⟨more, rfl⟩ : ∃ more, steps = more + 1 :=
            Nat.exists_eq_succ_of_ne_zero (by omega)
          have present : graph.nodes[predecessor]? = some graph.nodes[predecessor] :=
            List.getElem?_eq_getElem inRange
          have rest := ih predecessor earlier inRange (show predecessor < left by omega)
            (show predecessor ≤ more by omega)
          simp only [Option.map_some, present, Option.bind_some, wayBack, giver]
          split_ifs
          · rfl
          · rw [rest]
            rfl

/-- Every node is checked without a failure. -/
theorem guardedViolationAt_eq {place : Nat} (bound : place < graph.size) :
    graph.guardedViolationAt classes place = some (graph.violationAt? classes place) := by
  have present : graph.nodes[place]? = some graph.nodes[place] := List.getElem?_eq_getElem bound
  have input := fits.getElem?_inputs bound
  have back := guardedWayBack_eq wellFormed ascending fits bound
    (Nat.lt_succ_of_lt bound) (Nat.le_of_lt bound)
  simp only [guardedViolationAt, violationAt?, present, input, Option.bind_eq_bind,
    Option.bind_some]
  split_ifs
  · rfl
  · cases (classes.input place).provenance? with
    | none => rfl
    | some provenance =>
        simp only [back, Option.bind_some, Option.map_some, livePath]
        rfl

/-- The violations of a graph whose edges lead forward are found without a failure. -/
theorem guardedViolations_eq (valid : ∀ place ∈ classes.order, place < graph.size) :
    graph.guardedViolations classes = some (graph.violations classes) := by
  have each := mapM_eq_some_map fun place member =>
    guardedViolationAt_eq wellFormed ascending fits (valid place member)
  rw [guardedViolations, each, violations]
  exact congrArg some (List.filterMap_map ..)

end Ascending

end FlowGraph

end Flowgraph
