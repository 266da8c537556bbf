import Flowgraph.Proofs.Analysis.Evaluation
import Flowgraph.Proofs.Graph.LeastOrder

/-!
# The only solution of the class equations

The equations of a node speak of its own classes and of what its predecessors give out.  In
a graph without cycles they therefore leave no choice: two solutions agree at a node as soon
as they agree at all nodes before it (`TemporalMap.Solves.agree`).

Visits along any order in which predecessors come first solve the equations, whatever the
classes were before.  So the order of the visits does not matter, as long as no node comes
before its predecessors (`propagation_solves_uniquely`).
-/

namespace Flowgraph

namespace TemporalMap

variable {graph : FlowGraph} {classes others : TemporalMap}

/-- Where the predecessors of a node give out the same, the node has the same classes. -/
theorem SolvesAt.agree {place : Nat} (bound : place < graph.size)
    (solves : classes.SolvesAt graph place) (othersSolve : others.SolvesAt graph place)
    (sources : ∀ source ∈ graph.predecessors place, others.output source = classes.output source) :
    others.input place = classes.input place ∧ others.output place = classes.output place := by
  have present := List.getElem?_eq_getElem bound
  obtain ⟨input, output⟩ := solves _ present
  obtain ⟨otherInput, otherOutput⟩ := othersSolve _ present
  have inputs : others.input place = classes.input place := by
    rw [input, otherInput, List.map_congr_left sources]
  exact ⟨inputs, by rw [output, otherOutput, inputs]⟩

/-- Two solutions agree at every node of a graph without cycles. -/
theorem Solves.agree (wellFormed : graph.WellFormed) (acyclic : graph.Acyclic)
    (solves : classes.Solves graph) (othersSolve : others.Solves graph) {place : Nat}
    (bound : place < graph.size) :
    others.input place = classes.input place ∧ others.output place = classes.output place := by
  -- The induction goes against the flow of data, from a node to its predecessors.
  induction place using (acyclic.wellFounded wellFormed).induction with
  | _ place ih =>
      refine (solves place).agree bound (othersSolve place) fun source member => ?_
      have flows : graph.Flows source place := FlowGraph.mem_predecessors.mp member
      exact (ih source flows (wellFormed.flows_lt flows).1).2

/-- Maps of a graph that agree at every node are the same lists. -/
theorem Fits.lists_eq (fits : classes.Fits graph) (othersFit : others.Fits graph)
    (agree : ∀ place < graph.size,
      others.input place = classes.input place ∧ others.output place = classes.output place) :
    others.inputs = classes.inputs ∧ others.outputs = classes.outputs := by
  have inputs : (List.range graph.size).map others.input =
      (List.range graph.size).map classes.input :=
    List.map_congr_left fun place member => (agree place (List.mem_range.mp member)).1
  have outputs : (List.range graph.size).map others.output =
      (List.range graph.size).map classes.output :=
    List.map_congr_left fun place member => (agree place (List.mem_range.mp member)).2
  exact ⟨othersFit.eq_map_range.1.trans (inputs.trans fits.eq_map_range.1.symm),
    othersFit.eq_map_range.2.trans (outputs.trans fits.eq_map_range.2.symm)⟩

/-- Visits along an order solve the equations, whatever the classes were before. -/
theorem Fits.solves_foldl (fits : classes.Fits graph) {order : List Nat}
    (isOrder : graph.IsOrder order) :
    (order.foldl (TemporalMap.visit graph) classes).Solves graph := by
  intro place node present
  have bound : place < graph.size := (List.getElem?_eq_some_iff.mp present).1
  exact solvesAt_foldl fits isOrder.nodup isOrder.sourcesFirst place
    ((isOrder.mem_iff place).mpr bound) node present

end TemporalMap

namespace FlowGraph

/--
In a graph without cycles the propagated classes satisfy the equations of every node: what
reaches it combines what its predecessors give out, in the order of the edges, and what it
gives out follows from that by the transform of its kind.  No other classes satisfy these
equations, and every order of visits in which predecessors come first leads to them.
-/
theorem propagation_solves_uniquely {graph : FlowGraph} (wellFormed : graph.WellFormed)
    (acyclic : graph.Acyclic) :
    ∃ classes, graph.propagate? = some classes ∧ classes.Fits graph ∧
      (∀ place node, graph.nodes[place]? = some node →
        classes.input place =
            TemporalClass.combine ((graph.predecessors place).map classes.output) ∧
          (graph.predecessors place = [] → classes.input place = .bounded) ∧
          classes.output place =
            node.kind.transform.apply (classes.input place) node.options node.location) ∧
      (∀ others : TemporalMap, others.Fits graph → others.Solves graph →
        others.inputs = classes.inputs ∧ others.outputs = classes.outputs) ∧
      ∀ order, graph.IsOrder order →
        order.foldl (TemporalMap.visit graph) (TemporalMap.start graph order) =
          ⟨order, classes.inputs, classes.outputs⟩ := by
  obtain ⟨classes, found⟩ := propagate?_of_acyclic wellFormed acyclic
  have fits := fits_of_propagate? found
  have solves := solves_of_propagate? wellFormed found
  have only : ∀ others : TemporalMap, others.Fits graph → others.Solves graph →
      others.inputs = classes.inputs ∧ others.outputs = classes.outputs :=
    fun others othersFit othersSolve => fits.lists_eq othersFit fun place bound =>
      solves.agree wellFormed acyclic othersSolve bound
  refine ⟨classes, found, fits, ?_, only, ?_⟩
  · intro place node present
    obtain ⟨input, output⟩ := solves place node present
    refine ⟨input, fun alone => ?_, output⟩
    rw [input, alone]
    rfl
  · intro order isOrder
    have fitsStart := TemporalMap.fits_start graph order
    obtain ⟨inputs, outputs⟩ :=
      only _ (TemporalMap.fits_foldl fitsStart order) (fitsStart.solves_foldl isOrder)
    rw [← inputs, ← outputs]
    exact congrArg (TemporalMap.mk · _ _)
      (TemporalMap.order_foldl graph (TemporalMap.start graph order) order)

/-- The sources of the merged graph may be visited in any order before the node that merges them. -/
theorem propagation_solves_uniquely_mergedSources :
    mergedSources.WellFormed ∧ mergedSources.Acyclic ∧ mergedSources.IsOrder [1, 2, 0, 3, 4] ∧
      ∃ classes, mergedSources.propagate? = some classes ∧
        [1, 2, 0, 3, 4].foldl (TemporalMap.visit mergedSources)
            (TemporalMap.start mergedSources [1, 2, 0, 3, 4]) =
          ⟨[1, 2, 0, 3, 4], classes.inputs, classes.outputs⟩ := by
  have wellFormed : mergedSources.WellFormed := by decide
  have acyclic : mergedSources.Acyclic := acyclic_of_ascending (by decide)
  have isOrder : mergedSources.IsOrder [1, 2, 0, 3, 4] := by
    refine isOrder_of_perm (by decide) ?_
    exact ((((mergedSources.sourcesFirst_nil.concat (by decide)).concat (by decide)).concat
      (by decide)).concat (by decide)).concat (by decide)
  obtain ⟨classes, found, -, -, -, anyOrder⟩ := propagation_solves_uniquely wellFormed acyclic
  exact ⟨wellFormed, acyclic, isOrder, classes, found, anyOrder _ isOrder⟩

end FlowGraph

end Flowgraph
