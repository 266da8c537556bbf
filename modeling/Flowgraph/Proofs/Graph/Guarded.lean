import Flowgraph.Proofs.Analysis.Blame
import Flowgraph.Proofs.Graph.Wiring
import Flowgraph.Proofs.Operator.Places

/-!
# Graphs without a failure

Where operators are wired, each gets the next number of 32 bits, its place in the text is
looked up, and edges are drawn from nodes that are already there.  A guarded wiring gives
nothing where one of these is not possible.

The operators of a program make a graph without a failure if their places are in the text
and there are not too many of them (`guardedOfProgram_eq`).  The errors of the graph, and the
runaway programs found in it, point to places of operators.
-/

namespace Flowgraph

open Checked (PointsTo)

/-! ## Guarded wiring -/

/-- An operator at a place of the graph, if there is room for it and its inputs are there. -/
def Operator.guardedWire (source : SourceFile) (place : Nat) (entries : List Nat)
    (operator : Operator) : Option (Checked Wiring) := do
  let location ← source.guardedLocation operator.span
  if place < wordLimit ∧ ∀ entry ∈ entries, entry ≤ place then
    return do
      operator.checkInputs entries
      return ⟨[⟨operator.name, operator.kind, operator.options, location⟩],
        entries.map fun entry => ⟨entry, place⟩, [place]⟩
  else none

namespace Stage

mutual

/-- One stage, if all of its operators can be wired. -/
def guardedWire (source : SourceFile) (place : Nat) (entries : List Nat) :
    Stage Operator → Option (Checked Wiring)
  | step operator => operator.guardedWire source place entries
  | parallel branches _ => guardedWireBranches source place entries branches

/-- Stages that follow each other, if all of their operators can be wired. -/
def guardedWireChain (source : SourceFile) (place : Nat) (entries : List Nat) :
    List (Stage Operator) → Option (Checked Wiring)
  | [] => some (pure (.through entries))
  | stage :: rest => do
      let first ← stage.guardedWire source place entries
      let others ← guardedWireChain source (place + first.value.nodes.length) first.value.exits rest
      return do
        let first ← first
        let others ← others
        return first.followedBy others

/-- Chains side by side, if all of their operators can be wired. -/
def guardedWireBranches (source : SourceFile) (place : Nat) (entries : List Nat) :
    List (Flow Operator) → Option (Checked Wiring)
  | [] => some (pure (.through []))
  | ⟨stages, _⟩ :: rest => do
      let chain ← guardedWireChain source place entries stages
      let others ← guardedWireBranches source (place + chain.value.nodes.length) entries rest
      return do
        let chain ← chain
        let others ← others
        return chain.beside others

end

end Stage

/-- The graph of a program, if all operators can be wired. -/
def FlowGraph.guardedOfProgram (source : SourceFile) (chains : List (Flow Operator)) :
    Option (Checked FlowGraph) := do
  let wiring ← Stage.guardedWireBranches source 0 [] chains
  return do
    let wiring ← wiring
    return ⟨wiring.nodes, wiring.edges⟩

/-! ## Wiring succeeds -/

variable {source : SourceFile}

/-- An operator is wired without a failure if there is a number for it. -/
theorem Operator.guardedWire_eq (small : source.length < lengthLimit) {place : Nat}
    {entries : List Nat} {operator : Operator} (early : ∀ entry ∈ entries, entry < place)
    (within : operator.span.Within source.characters)
    (room : place < wordLimit) :
    operator.guardedWire source place entries = some (operator.wire source place entries) := by
  have present : ∀ entry ∈ entries, entry ≤ place := fun entry member => (early entry member).le
  rw [guardedWire, SourceFile.guardedLocation_eq small within]
  simp only [Option.bind_eq_bind, Option.bind_some]
  rw [if_pos ⟨room, present⟩]
  rfl

namespace Stage

mutual

/-- A stage is wired without a failure if there are numbers for its operators. -/
theorem guardedWire_eq (small : source.length < lengthLimit) {place : Nat} {entries : List Nat}
    {stage : Stage Operator}
    (early : ∀ entry ∈ entries, entry < place)
    (within : ∀ operator ∈ stage.steps, operator.span.Within source.characters)
    (room : place + stage.steps.length ≤ wordLimit) :
    stage.guardedWire source place entries = some (stage.wire source place entries) := by
  cases stage with
  | step operator =>
      exact Operator.guardedWire_eq small early (within operator (List.mem_singleton_self _)) room
  | parallel branches span => exact guardedWireBranches_eq small early within room

/-- A chain is wired without a failure if there are numbers for its operators. -/
theorem guardedWireChain_eq (small : source.length < lengthLimit) {place : Nat}
    {entries : List Nat} {stages : List (Stage Operator)}
    (early : ∀ entry ∈ entries, entry < place)
    (within : ∀ operator ∈ chainSteps stages, operator.span.Within source.characters)
    (room : place + (chainSteps stages).length ≤ wordLimit) :
    guardedWireChain source place entries stages =
      some (wireChain source place entries stages) := by
  cases stages with
  | nil => rfl
  | cons stage rest =>
      rw [chainSteps, List.forall_mem_append] at within
      rw [chainSteps, List.length_append] at room
      have first := guardedWire_eq small early within.1 (by omega)
      have exits := (between_wire source early stage).exits
      have length : (stage.wire source place entries).value.nodes.length = stage.steps.length := by
        rw [nodes_wire, List.length_map]
      rw [← length] at exits
      have others := guardedWireChain_eq small exits within.2 (by rw [length]; omega)
      simp only [guardedWireChain, first, others, Option.bind_eq_bind, Option.bind_some]
      rfl

theorem guardedWireBranches_eq (small : source.length < lengthLimit) {place : Nat}
    {entries : List Nat} {branches : List (Flow Operator)}
    (early : ∀ entry ∈ entries, entry < place)
    (within : ∀ operator ∈ branchSteps branches, operator.span.Within source.characters)
    (room : place + (branchSteps branches).length ≤ wordLimit) :
    guardedWireBranches source place entries branches =
      some (wireBranches source place entries branches) := by
  cases branches with
  | nil => rfl
  | cons flow rest =>
      obtain ⟨stages, span⟩ := flow
      rw [branchSteps, List.forall_mem_append] at within
      rw [branchSteps, List.length_append] at room
      have chain := guardedWireChain_eq small early within.1 (by omega)
      have length : (wireChain source place entries stages).value.nodes.length =
          (chainSteps stages).length := by
        rw [nodes_wireChain, List.length_map]
      have later : ∀ entry ∈ entries,
          entry < place + (wireChain source place entries stages).value.nodes.length :=
        fun entry member => (early entry member).trans_le (Nat.le_add_right _ _)
      have others := guardedWireBranches_eq small later within.2 (by rw [length]; omega)
      simp only [guardedWireBranches, chain, others, Option.bind_eq_bind, Option.bind_some]
      rfl

end

end Stage

/-- The operators of a text are wired without a failure. -/
theorem FlowGraph.guardedOfProgram_eq (small : source.length < lengthLimit)
    {chains : List (Flow Operator)}
    (within : ∀ operator ∈ Stage.branchSteps chains, operator.span.Within source.characters)
    (room : (Stage.branchSteps chains).length ≤ wordLimit) :
    guardedOfProgram source chains = some (ofProgram source chains) := by
  have noEntries : ∀ entry ∈ ([] : List Nat), entry < 0 := by simp
  have wired := Stage.guardedWireBranches_eq small noEntries within (by omega)
  rw [guardedOfProgram, wired]
  rfl

/-! ## Where the errors of a graph are -/

/-- What is wrong with the inputs of an operator is reported at the operator. -/
theorem Operator.checkInputs_pointsTo {places : List Span} {operator : Operator}
    (member : operator.span ∈ places) (entries : List Nat) :
    PointsTo places (operator.checkInputs entries) := by
  rw [checkInputs]
  split
  · exact .error member _ _
  · exact .error member _ _
  · exact .pure ()
  · exact .pure ()

namespace Stage

mutual

/-- What is wrong with the wiring of a stage is reported at its operators. -/
theorem wire_pointsTo {places : List Span} (source : SourceFile) (place : Nat)
    (entries : List Nat) {stage : Stage Operator}
    (members : ∀ operator ∈ stage.steps, operator.span ∈ places) :
    PointsTo places (stage.wire source place entries) := by
  cases stage with
  | step operator =>
      have member := members operator (List.mem_singleton_self _)
      exact (operator.checkInputs_pointsTo member entries).bind (.pure _)
  | parallel branches span => exact wireBranches_pointsTo source place entries members

/-- What is wrong with the wiring of a chain is reported at its operators. -/
theorem wireChain_pointsTo {places : List Span} (source : SourceFile) (place : Nat)
    (entries : List Nat) {stages : List (Stage Operator)}
    (members : ∀ operator ∈ chainSteps stages, operator.span ∈ places) :
    PointsTo places (wireChain source place entries stages) := by
  cases stages with
  | nil => exact .pure _
  | cons stage rest =>
      rw [chainSteps, List.forall_mem_append] at members
      apply (wire_pointsTo source place entries members.1).bind
      exact (wireChain_pointsTo source _ _ members.2).bind (.pure _)

theorem wireBranches_pointsTo {places : List Span} (source : SourceFile) (place : Nat)
    (entries : List Nat) {branches : List (Flow Operator)}
    (members : ∀ operator ∈ branchSteps branches, operator.span ∈ places) :
    PointsTo places (wireBranches source place entries branches) := by
  cases branches with
  | nil => exact .pure _
  | cons flow rest =>
      obtain ⟨stages, span⟩ := flow
      rw [branchSteps, List.forall_mem_append] at members
      apply (wireChain_pointsTo source place entries members.1).bind
      exact (wireBranches_pointsTo source _ _ members.2).bind (.pure _)

end

end Stage

/-- The errors of a graph point to its operators. -/
theorem FlowGraph.ofProgram_pointsTo {places : List Span} (source : SourceFile)
    {chains : List (Flow Operator)}
    (members : ∀ operator ∈ Stage.branchSteps chains, operator.span ∈ places) :
    PointsTo places (ofProgram source chains) :=
  (Stage.wireBranches_pointsTo source 0 [] members).bind (.pure _)

/-! ## Where runaway programs are -/

/-- A runaway program is explained by its source, its operator, and those on the way. -/
theorem Violation.spans_diagnostic (violation : Violation) :
    violation.diagnostic.spans =
      violation.provenance.span :: violation.operatorLocation.span ::
        violation.path.map fun hop => hop.location.span := by
  have folded : ∀ (hops : List Hop) (diagnostic : Diagnostic),
      (hops.foldl (fun diagnostic hop =>
          diagnostic.withCause hop.description (some hop.location.span)) diagnostic).spans =
        diagnostic.spans ++ hops.map fun hop => hop.location.span := by
    intro hops
    induction hops with
    | nil => simp
    | cons hop rest ih =>
        intro diagnostic
        rw [List.foldl_cons, ih]
        simp [Diagnostic.withCause, Diagnostic.spans]
  exact folded violation.path _

namespace FlowGraph

variable {graph : FlowGraph} {classes : TemporalMap}

/-- The places of the nodes. -/
def spans (graph : FlowGraph) : List Span :=
  graph.nodes.map fun node => node.location.span

theorem span_mem_spans {place : Nat} {node : Node} (present : graph.nodes[place]? = some node) :
    node.location.span ∈ graph.spans :=
  List.mem_map_of_mem (List.mem_of_getElem? present)

/-- All hops of the way back to the source are at nodes of the graph. -/
theorem hops_mem_spans (classes : TemporalMap) (steps place : Nat) :
    ∀ hop ∈ graph.wayBack classes steps place, hop.location.span ∈ graph.spans := by
  induction steps generalizing place with
  | zero => simp [wayBack]
  | succ steps ih =>
      rw [wayBack]
      split
      · simp
      · split
        · simp
        · next predecessor _ _ node present =>
            split_ifs
            · simp
            · rw [List.forall_mem_cons]
              exact ⟨span_mem_spans present, ih predecessor⟩

/-- What is reported about a runaway program points to nodes of its graph. -/
theorem diagnostic_spans_subset (analyzed : graph.Analyzed classes) {violation : Violation}
    (member : violation ∈ graph.violations classes) :
    violation.diagnostic.spans ⊆ graph.spans := by
  obtain ⟨place, -, reported⟩ := mem_violations.mp member
  obtain ⟨node, blamed, present, -, input, rfl⟩ := violationAt?_eq_some_iff.mp reported
  obtain ⟨giver, inner, path⟩ := exists_blamePath analyzed.wellFormed analyzed.acyclic
    analyzed.solves present (by rw [input]; rfl)
  obtain ⟨source, isSource, -, isBlamed⟩ := path.exists_source
  have onTheWay : ∀ hop ∈ graph.livePath classes place, hop.location.span ∈ graph.spans :=
    fun hop isHop => hops_mem_spans classes graph.size place hop (List.mem_reverse.mp isHop)
  rw [Violation.spans_diagnostic, List.cons_subset, List.cons_subset]
  refine ⟨isBlamed ▸ span_mem_spans isSource, span_mem_spans present, ?_⟩
  intro span isSpan
  obtain ⟨hop, isHop, rfl⟩ := List.mem_map.mp isSpan
  exact onTheWay hop isHop

end FlowGraph

end Flowgraph
