import Flowgraph.Proofs.Analysis.Blame
import Mathlib.Order.Bounds.Basic

/-!
# What the check for runaway programs decides

The check joins classes wherever inputs meet, and only then applies the next
transform.  The live paths to a node say the same one path at a time: the rank of what
reaches a node is the greatest rank over all live paths to it
(`isGreatest_liveRanks`), because every transform keeps the order of danger and
because what arrives is always the data of one of these paths.

So a graph is rejected exactly if live data without windows reaches, on some path, an
operator that has to see the end of its data.
-/

namespace Flowgraph

namespace FlowGraph

/-- The ranks of the classes with which live paths reach a node. -/
def liveRanks (graph : FlowGraph) (place : Nat) : Set Nat :=
  { rank | ∃ source inner reached, graph.LivePath source inner place reached ∧
      reached.rank = rank }

/-- Some path brings live data without windows to an operator that has to see its end. -/
def RunsAwayAt (graph : FlowGraph) (place : Nat) : Prop :=
  ∃ node, graph.nodes[place]? = some node ∧ node.kind.requirement = .requiresBounded ∧
    ∃ source inner reached, graph.LivePath source inner place reached ∧
      reached.isUnbounded = true

variable {graph : FlowGraph} {classes : TemporalMap}

/-- Every live class that reaches a node is the class of a live path to it. -/
theorem exists_livePath (wellFormed : graph.WellFormed) (acyclic : graph.Acyclic)
    (solves : classes.Solves graph) {place : Nat} {node : Node}
    (present : graph.nodes[place]? = some node) (live : (classes.input place).rank ≠ 0) :
    ∃ source inner, graph.LivePath source inner place (classes.input place) := by
  have blamed : (classes.input place).provenance? ≠ none := by
    simpa [TemporalClass.provenance?_eq_none_iff] using live
  obtain ⟨location, known⟩ := Option.ne_none_iff_exists'.mp blamed
  obtain ⟨source, inner, path⟩ := exists_blamePath wellFormed acyclic solves present known
  exact ⟨source, inner, path.livePath solves⟩

theorem LivePath.rank_pos {source place : Nat} {inner : List Nat} {reached : TemporalClass}
    (path : graph.LivePath source inner place reached) : reached.rank ≠ 0 := by
  rw [Ne, ← TemporalClass.provenance?_eq_none_iff]
  induction path with
  | @direct node place present isSource unending flows =>
      simp [node.provenance?_liveClass]
  | through path present passes flows ih =>
      rwa [Node.emits, Transform.provenance?_apply (Node.transform_ne_origin passes)]

/-- The rank of what reaches a node is the greatest over its live paths. -/
theorem isGreatest_liveRanks (wellFormed : graph.WellFormed) (acyclic : graph.Acyclic)
    (solves : classes.Solves graph) {place : Nat} {node : Node}
    (present : graph.nodes[place]? = some node) (nonempty : (graph.liveRanks place).Nonempty) :
    IsGreatest (graph.liveRanks place) (classes.input place).rank := by
  have upper : (classes.input place).rank ∈ upperBounds (graph.liveRanks place) := by
    rintro rank ⟨source, inner, reached, path, rfl⟩
    exact path.rank_le_input wellFormed solves
  refine ⟨?_, upper⟩
  obtain ⟨rank, source, inner, reached, path, rfl⟩ := nonempty
  have live : (classes.input place).rank ≠ 0 := by
    have atMost := path.rank_le_input wellFormed solves
    have positive := path.rank_pos
    omega
  obtain ⟨source, inner, path⟩ := exists_livePath wellFormed acyclic solves present live
  exact ⟨source, inner, _, path, rfl⟩

/-- Without a live path to it, a node receives bounded data. -/
theorem rank_input_eq_zero (wellFormed : graph.WellFormed) (acyclic : graph.Acyclic)
    (solves : classes.Solves graph) {place : Nat} {node : Node}
    (present : graph.nodes[place]? = some node) (empty : graph.liveRanks place = ∅) :
    (classes.input place).rank = 0 := by
  by_contra live
  obtain ⟨source, inner, path⟩ := exists_livePath wellFormed acyclic solves present live
  exact Set.eq_empty_iff_forall_notMem.mp empty _ ⟨source, inner, _, path, rfl⟩

/-- Live data without windows reaches a node exactly if it does so on some path. -/
theorem isUnbounded_input_iff (wellFormed : graph.WellFormed) (acyclic : graph.Acyclic)
    (solves : classes.Solves graph) {place : Nat} {node : Node}
    (present : graph.nodes[place]? = some node) :
    (classes.input place).isUnbounded = true ↔
      ∃ source inner reached, graph.LivePath source inner place reached ∧
        reached.isUnbounded = true := by
  constructor
  · intro unbounded
    have live : (classes.input place).rank ≠ 0 := by
      simp [(TemporalClass.isUnbounded_iff_rank _).mp unbounded]
    obtain ⟨source, inner, path⟩ := exists_livePath wellFormed acyclic solves present live
    exact ⟨source, inner, _, path, unbounded⟩
  · rintro ⟨source, inner, reached, path, unbounded⟩
    rw [TemporalClass.isUnbounded_iff_rank] at unbounded ⊢
    have atMost := path.rank_le_input wellFormed solves
    have most : (classes.input place).rank ≤ 2 := by
      cases classes.input place <;> simp [TemporalClass.rank]
    omega

theorem exists_violationAt?_iff (wellFormed : graph.WellFormed) (acyclic : graph.Acyclic)
    (solves : classes.Solves graph) (place : Nat) :
    (∃ violation, graph.violationAt? classes place = some violation) ↔ graph.RunsAwayAt place := by
  constructor
  · rintro ⟨violation, reported⟩
    obtain ⟨node, blamed, present, required, input, -⟩ := violationAt?_eq_some_iff.mp reported
    refine ⟨node, present, required, ?_⟩
    exact (isUnbounded_input_iff wellFormed acyclic solves present).mp (by rw [input]; rfl)
  · rintro ⟨node, present, required, reached⟩
    have unbounded := (isUnbounded_input_iff wellFormed acyclic solves present).mpr reached
    cases input : classes.input place with
    | liveUnbounded blamed =>
        exact ⟨_, violationAt?_eq_some_iff.mpr ⟨node, blamed, present, required, input, rfl⟩⟩
    | bounded | liveWindowed blamed =>
        rw [input] at unbounded
        cases unbounded

theorem node_of_violationAt? {place : Nat} {violation : Violation}
    (reported : graph.violationAt? classes place = some violation) :
    violation.node = place := by
  obtain ⟨node, blamed, -, -, -, rfl⟩ := violationAt?_eq_some_iff.mp reported
  rfl

/-- The nodes with a violation, in the order of the visits. -/
theorem map_node_violations (graph : FlowGraph) (classes : TemporalMap) :
    (graph.violations classes).map Violation.node =
      classes.order.filter fun place => (graph.violationAt? classes place).isSome := by
  rw [violations]
  induction classes.order with
  | nil => rfl
  | cons place rest ih =>
      cases reported : graph.violationAt? classes place with
      | none => simp [reported, ih]
      | some violation => simp [reported, ih, node_of_violationAt? reported]

theorem mem_map_node_violations (wellFormed : graph.WellFormed) (acyclic : graph.Acyclic)
    (found : graph.propagate? = some classes) (place : Nat) :
    place ∈ (graph.violations classes).map Violation.node ↔ graph.RunsAwayAt place := by
  have solves := solves_of_propagate? wellFormed found
  rw [map_node_violations, List.mem_filter, Option.isSome_iff_exists,
    exists_violationAt?_iff wellFormed acyclic solves]
  refine ⟨And.right, fun runsAway => ⟨?_, runsAway⟩⟩
  obtain ⟨node, present, -⟩ := runsAway
  exact ((isOrder_of_propagate? wellFormed found).mem_iff place).mpr
    (List.getElem?_eq_some_iff.mp present).1

/-- The verdict does not depend on the order in which edges are listed. -/
theorem runsAwayAt_of_perm {edges : List Edge} (same : edges.Perm graph.edges) (place : Nat) :
    RunsAwayAt { graph with edges } place ↔ graph.RunsAwayAt place := by
  constructor
  · rintro ⟨node, present, required, source, inner, reached, path, unbounded⟩
    exact ⟨node, present, required, source, inner, reached, path.mono rfl same.subset, unbounded⟩
  · rintro ⟨node, present, required, source, inner, reached, path, unbounded⟩
    exact ⟨node, present, required, source, inner, reached, path.mono rfl same.symm.subset,
      unbounded⟩

theorem WellFormed.of_perm (wellFormed : graph.WellFormed) {edges : List Edge}
    (same : edges.Perm graph.edges) : WellFormed { graph with edges } :=
  fun edge member => wellFormed edge (same.subset member)

theorem Acyclic.of_perm (acyclic : graph.Acyclic) {edges : List Edge}
    (same : edges.Perm graph.edges) : Acyclic { graph with edges } :=
  fun node cycle =>
    acyclic node (Relation.TransGen.mono (fun _ _ flows => same.subset flows) node node cycle)

theorem analyze?_eq (found : graph.propagate? = some classes) :
    graph.analyze? = some (match graph.violations classes with
      | [] => .ok graph
      | first :: _ => .error first.report) := by
  rw [analyze?, findViolations?_eq found]
  rfl

/--
The check of a graph without cycles agrees with its live paths: what reaches a node
has the greatest rank among them, the violations are at the nodes that run away, each
listed once, and the graph is returned unchanged exactly if there is no such node.
Listing the edges in another order leaves these nodes the same.
-/
theorem runaway_check_iff_livePath {graph : FlowGraph} (wellFormed : graph.WellFormed)
    (acyclic : graph.Acyclic) :
    ∃ classes found, graph.propagate? = some classes ∧ graph.findViolations? = some found ∧
      (∀ place < graph.size,
        ((graph.liveRanks place).Nonempty →
          IsGreatest (graph.liveRanks place) (classes.input place).rank) ∧
        (graph.liveRanks place = ∅ → (classes.input place).rank = 0)) ∧
      (found.map Violation.node).Nodup ∧
      (∀ place, place ∈ found.map Violation.node ↔ graph.RunsAwayAt place) ∧
      ((∀ place, ¬ graph.RunsAwayAt place) → graph.analyze? = some (.ok graph)) ∧
      ((∃ place, graph.RunsAwayAt place) → ∃ report, graph.analyze? = some (.error report)) ∧
      ∀ edges : List Edge, edges.Perm graph.edges →
        ∃ others, findViolations? { graph with edges } = some others ∧
          ∀ place, place ∈ others.map Violation.node ↔ place ∈ found.map Violation.node := by
  obtain ⟨classes, found⟩ := propagate?_of_acyclic wellFormed acyclic
  have solves := solves_of_propagate? wellFormed found
  have listed := mem_map_node_violations wellFormed acyclic found
  refine ⟨classes, _, found, findViolations?_eq found, ?_, ?_, listed, ?_, ?_, ?_⟩
  · intro place bound
    have present := List.getElem?_eq_getElem bound
    exact ⟨isGreatest_liveRanks wellFormed acyclic solves present,
      rank_input_eq_zero wellFormed acyclic solves present⟩
  · rw [map_node_violations]
    exact (isOrder_of_propagate? wellFormed found).nodup.filter _
  · intro safe
    have none : graph.violations classes = [] := by
      rw [← List.map_eq_nil_iff (f := Violation.node), List.eq_nil_iff_forall_not_mem]
      exact fun place member => safe place ((listed place).mp member)
    rw [analyze?_eq found, none]
  · rintro ⟨place, runsAway⟩
    rw [analyze?_eq found]
    cases violations : graph.violations classes with
    | nil =>
        have member := (listed place).mpr runsAway
        rw [violations] at member
        cases member
    | cons first rest => exact ⟨first.report, rfl⟩
  · intro edges same
    obtain ⟨others, reordered⟩ :=
      propagate?_of_acyclic (wellFormed.of_perm same) (acyclic.of_perm same)
    refine ⟨_, findViolations?_eq reordered, fun place => ?_⟩
    rw [listed, mem_map_node_violations (wellFormed.of_perm same) (acyclic.of_perm same) reordered,
      runsAwayAt_of_perm same]

theorem runaway_check_of_mergedSources :
    mergedSources.WellFormed ∧ mergedSources.Acyclic ∧
      mergedSources.RunsAwayAt 4 ∧ ¬ mergedSources.RunsAwayAt 3 := by
  have wellFormed : mergedSources.WellFormed := by decide
  have acyclic : mergedSources.Acyclic := acyclic_of_ascending (by decide)
  obtain ⟨classes, found, -, reported, -, -, listed, -⟩ :=
    runaway_check_iff_livePath wellFormed acyclic
  have computed : mergedSources.findViolations?.map (List.map Violation.node) = some [4] := by
    decide
  rw [reported, Option.map_some, Option.some.injEq] at computed
  refine ⟨wellFormed, acyclic, ?_, ?_⟩
  · simp [← listed, computed]
  · simp [← listed, computed]

end FlowGraph

end Flowgraph
