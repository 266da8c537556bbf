import Flowgraph.Graph.Order
import Mathlib.Order.WellFoundedSet

/-!
# Visiting a graph without cycles

The visit of a graph keeps one invariant (`Traversal.Invariant`): a node is ready
exactly when it has not been visited and all nodes from which data flows to it
have been.  The counts of a node stand for the edges from nodes that have not been
visited.  While the edges of a visited node are taken off the counts one by one,
the edges still to be taken off are part of the invariant.

If no node can reach itself, a node is always ready until all have been visited.
The order of the visits then lists every node once, after all nodes from which
data flows to it (`order?_of_acyclic`).
-/

namespace Flowgraph

namespace FlowGraph

/-- Data flows straight from one node to another. -/
def Flows (graph : FlowGraph) (source target : Nat) : Prop :=
  ⟨source, target⟩ ∈ graph.edges

/-- No way along the edges leads back to the node where it began. -/
def Acyclic (graph : FlowGraph) : Prop :=
  ∀ node, ¬ Relation.TransGen graph.Flows node node

theorem WellFormed.flows_lt {graph : FlowGraph} (wellFormed : graph.WellFormed)
    {source target : Nat} (flows : graph.Flows source target) :
    source < graph.size ∧ target < graph.size :=
  wellFormed _ flows

/-- Going against the flow of data comes to an end. -/
theorem Acyclic.wellFounded {graph : FlowGraph} (acyclic : graph.Acyclic)
    (wellFormed : graph.WellFormed) :
    WellFounded graph.Flows := by
  have strict : IsStrictOrder Nat (Relation.TransGen graph.Flows) :=
    { irrefl := acyclic, trans := fun _ _ _ => Relation.TransGen.trans }
  have onNodes : (Set.Iio graph.size).WellFoundedOn (Relation.TransGen graph.Flows) :=
    (Set.finite_Iio graph.size).wellFoundedOn
  apply Subrelation.wf _ (Set.wellFoundedOn_iff.mp onNodes)
  intro source target flows
  have valid := wellFormed.flows_lt flows
  exact ⟨.single flows, valid.1, valid.2⟩

/-- Where all edges lead to later places, so do all ways along them. -/
theorem lt_of_ascending {graph : FlowGraph}
    (ascending : ∀ edge ∈ graph.edges, edge.source < edge.target) {first last : Nat}
    (way : Relation.TransGen graph.Flows first last) : first < last := by
  induction way with
  | single flows => exact ascending _ flows
  | tail _ flows ih => exact ih.trans (ascending _ flows)

/-- A graph whose edges all lead to later places has no cycle. -/
theorem acyclic_of_ascending {graph : FlowGraph}
    (ascending : ∀ edge ∈ graph.edges, edge.source < edge.target) :
    graph.Acyclic :=
  fun node way => Nat.lt_irrefl node (lt_of_ascending ascending way)

/-- Every node of the list comes after all nodes from which data flows to it. -/
def SourcesFirst (graph : FlowGraph) (order : List Nat) : Prop :=
  ∀ before node after, order = before ++ node :: after →
    ∀ source ∈ graph.predecessors node, source ∈ before

theorem sourcesFirst_nil (graph : FlowGraph) : graph.SourcesFirst [] := by
  intro before node after split
  simp at split

/-- A list goes on in order with a node whose sources it holds. -/
theorem SourcesFirst.concat {graph : FlowGraph} {order : List Nat} {node : Nat}
    (first : graph.SourcesFirst order)
    (sources : ∀ source ∈ graph.predecessors node, source ∈ order) :
    graph.SourcesFirst (order ++ [node]) := by
  intro before other after split
  rcases List.eq_nil_or_concat after with rfl | ⟨rest, last, rfl⟩
  · obtain ⟨rfl, same⟩ := List.append_inj' split rfl
    obtain rfl : node = other := by simpa using same
    exact sources
  · have longer : order ++ [node] = (before ++ other :: rest) ++ [last] := by simpa using split
    obtain ⟨rfl, -⟩ := List.append_inj' longer rfl
    exact first before other rest rfl

/-- The sources of a node of such a list are in the list. -/
theorem SourcesFirst.mem {graph : FlowGraph} {order : List Nat}
    (first : graph.SourcesFirst order) {source target : Nat} (member : target ∈ order)
    (flows : source ∈ graph.predecessors target) :
    source ∈ order := by
  obtain ⟨before, after, rfl⟩ := List.append_of_mem member
  exact List.mem_append_left _ (first before target after rfl source flows)

/-- An order of all nodes in which each comes after those from which data flows to it. -/
structure IsOrder (graph : FlowGraph) (order : List Nat) : Prop where
  nodup : order.Nodup
  mem_iff : ∀ node, node ∈ order ↔ node < graph.size
  sourcesFirst : graph.SourcesFirst order

/-! ## Counting edges -/

/-- The number of edges to a node from nodes that are not in a list. -/
def awaited (graph : FlowGraph) (visited : List Nat) (node : Nat) : Nat :=
  (graph.predecessors node).countP (· ∉ visited)

theorem awaited_eq_zero_iff {graph : FlowGraph} {visited : List Nat} {node : Nat} :
    graph.awaited visited node = 0 ↔ ∀ source ∈ graph.predecessors node, source ∈ visited := by
  simp [awaited, List.countP_eq_zero]

/-- Both ends of the edges from one node to another see them equally often. -/
theorem count_successors_eq_count_predecessors (graph : FlowGraph) (source target : Nat) :
    (graph.successors source).count target = (graph.predecessors target).count source := by
  unfold successors predecessors
  induction graph.edges with
  | nil => rfl
  | cons edge rest ih =>
      by_cases fromSource : edge.source = source <;> by_cases toTarget : edge.target = target <;>
        simp [fromSource, toTarget, ih]

/-- A visit of a node takes the edges from it off the counts. -/
theorem awaited_concat {graph : FlowGraph} {visited : List Nat} {node : Nat}
    (unvisited : node ∉ visited) (target : Nat) :
    graph.awaited (visited ++ [node]) target + (graph.successors node).count target =
      graph.awaited visited target := by
  rw [count_successors_eq_count_predecessors]
  unfold awaited
  induction graph.predecessors target with
  | nil => rfl
  | cons source rest ih =>
      rcases eq_or_ne source node with rfl | different
      · simp [unvisited] at ih ⊢
        omega
      · by_cases seen : source ∈ visited <;> simp [seen, different] at ih ⊢ <;> omega

end FlowGraph

/-! ## Ascending lists -/

theorem mem_insertAscending {number other : Nat} {numbers : List Nat} :
    other ∈ insertAscending number numbers ↔ other = number ∨ other ∈ numbers := by
  induction numbers with
  | nil => simp [insertAscending]
  | cons first rest ih =>
      unfold insertAscending
      split
      · simp
      · simp only [List.mem_cons, ih]
        exact or_left_comm

/-- A number that is not in an ascending list yet can be put in its place. -/
theorem pairwise_insertAscending {number : Nat} {numbers : List Nat} (absent : number ∉ numbers)
    (ascending : numbers.Pairwise (· < ·)) :
    (insertAscending number numbers).Pairwise (· < ·) := by
  induction numbers with
  | nil => simp [insertAscending]
  | cons first rest ih =>
      rw [List.mem_cons, not_or] at absent
      have smallest := List.pairwise_cons.mp ascending
      unfold insertAscending
      split
      case isTrue atMost =>
        have below : number < first := lt_of_le_of_ne atMost absent.1
        refine List.pairwise_cons.mpr ⟨?_, ascending⟩
        intro other member
        rcases List.mem_cons.mp member with rfl | later
        · exact below
        · exact below.trans (smallest.1 other later)
      case isFalse above =>
        refine List.pairwise_cons.mpr ⟨?_, ih absent.2 smallest.2⟩
        intro other member
        rcases mem_insertAscending.mp member with rfl | later
        · exact not_le.mp above
        · exact smallest.1 other later

namespace Traversal

open FlowGraph

/-! ## The invariant of a visit -/

/--
What holds while a graph is visited.  `pending` lists the targets of those edges
of the last visited node that have not been taken off the counts yet.
-/
structure Invariant (graph : FlowGraph) (pending : List Nat) (traversal : Traversal) : Prop where
  nodup : traversal.visited.Nodup
  valid : ∀ node ∈ traversal.visited, node < graph.size
  sourcesFirst : graph.SourcesFirst traversal.visited
  waiting : ∀ node < graph.size, traversal.waiting[node]? =
    some ((graph.awaited traversal.visited node + pending.count node : Nat) : Int)
  ready : ∀ node, node ∈ traversal.ready ↔ node < graph.size ∧ node ∉ traversal.visited ∧
    graph.awaited traversal.visited node + pending.count node = 0
  ascending : traversal.ready.Pairwise (· < ·)

theorem start_invariant (graph : FlowGraph) : (start graph).Invariant graph [] where
  nodup := List.nodup_nil
  valid := by simp [start]
  sourcesFirst := graph.sourcesFirst_nil
  waiting := by
    intro node bound
    simp [start, awaited, bound]
  ready := by
    intro node
    simp [start, awaited, List.eq_nil_iff_forall_not_mem]
  ascending := List.pairwise_lt_range.filter _

@[simp]
theorem visited_release (traversal : Traversal) (node : Nat) :
    (traversal.release node).visited = traversal.visited := by
  unfold release
  dsimp only
  split <;> rfl

/-- Taking one edge off a count keeps the invariant, and the node is ready if it was the last. -/
theorem Invariant.release {graph : FlowGraph} {node : Nat} {pending : List Nat}
    {traversal : Traversal} (invariant : traversal.Invariant graph (node :: pending))
    (bound : node < graph.size) (unvisited : node ∉ traversal.visited) :
    (traversal.release node).Invariant graph pending := by
  have before := invariant.waiting node bound
  have notReady : node ∉ traversal.ready := by
    simp [invariant.ready node]
  have after : (traversal.waiting.modify node (· - 1))[node]? =
      some ((graph.awaited traversal.visited node + pending.count node : Nat) : Int) := by
    simp [before]
    omega
  have waiting : ∀ other < graph.size, (traversal.waiting.modify node (· - 1))[other]? =
      some ((graph.awaited traversal.visited other + pending.count other : Nat) : Int) := by
    intro other otherBound
    rcases eq_or_ne other node with rfl | different
    · exact after
    · rw [List.getElem?_modify_ne _ _ different.symm, invariant.waiting other otherBound,
        List.count_cons_of_ne different.symm]
  have others : ∀ other, other ≠ node → (other ∈ traversal.ready ↔ other < graph.size ∧
      other ∉ traversal.visited ∧
        graph.awaited traversal.visited other + pending.count other = 0) := by
    intro other different
    rw [invariant.ready other, List.count_cons_of_ne different.symm]
  unfold Traversal.release
  dsimp only
  split
  case isTrue last =>
    have none : graph.awaited traversal.visited node + pending.count node = 0 := by
      rw [after] at last
      exact Int.ofNat_eq_zero.mp (Option.some.inj last)
    refine ⟨invariant.nodup, invariant.valid, invariant.sourcesFirst, waiting, ?_,
      pairwise_insertAscending notReady invariant.ascending⟩
    intro other
    rw [mem_insertAscending]
    rcases eq_or_ne other node with rfl | different
    · exact ⟨fun _ => ⟨bound, unvisited, none⟩, fun _ => .inl rfl⟩
    · simpa [different] using others other different
  case isFalse more =>
    have some : graph.awaited traversal.visited node + pending.count node ≠ 0 := by
      rw [after] at more
      intro zero
      exact more (by rw [zero]; rfl)
    refine ⟨invariant.nodup, invariant.valid, invariant.sourcesFirst, waiting, ?_,
      invariant.ascending⟩
    intro other
    rcases eq_or_ne other node with rfl | different
    · exact ⟨fun ready => absurd ready notReady, fun ready => absurd ready.2.2 some⟩
    · exact others other different

/-- Taking all pending edges off the counts leaves none pending. -/
theorem Invariant.foldl_release {graph : FlowGraph} {pending : List Nat} {traversal : Traversal}
    (invariant : traversal.Invariant graph pending)
    (bound : ∀ node ∈ pending, node < graph.size)
    (unvisited : ∀ node ∈ pending, node ∉ traversal.visited) :
    (pending.foldl Traversal.release traversal).Invariant graph [] ∧
      (pending.foldl Traversal.release traversal).visited = traversal.visited := by
  induction pending generalizing traversal with
  | nil => exact ⟨invariant, rfl⟩
  | cons node rest ih =>
      have step := invariant.release (bound node (by simp)) (unvisited node (by simp))
      have done := ih step (fun other member => bound other (List.mem_cons_of_mem _ member))
        (by
          intro other member
          rw [visited_release]
          exact unvisited other (List.mem_cons_of_mem _ member))
      exact ⟨done.1, by rw [List.foldl_cons, done.2, visited_release]⟩

/-- A visited node leaves its edges pending. -/
theorem Invariant.take {graph : FlowGraph} {traversal : Traversal} {node : Nat} {others : List Nat}
    (invariant : traversal.Invariant graph []) (first : traversal.ready = node :: others) :
    Invariant graph (graph.successors node)
      { traversal with visited := traversal.visited ++ [node], ready := others } := by
  obtain ⟨bound, unvisited, none⟩ := (invariant.ready node).mp (by simp [first])
  have sources : ∀ source ∈ graph.predecessors node, source ∈ traversal.visited := by
    exact awaited_eq_zero_iff.mp (by simpa using none)
  have ascending := invariant.ascending
  rw [first, List.pairwise_cons] at ascending
  constructor
  case nodup =>
    exact List.nodup_append.mpr ⟨invariant.nodup, List.nodup_singleton node, by grind⟩
  case valid =>
    intro other member
    rcases List.mem_append.mp member with old | new
    · exact invariant.valid other old
    · exact (List.mem_singleton.mp new) ▸ bound
  case sourcesFirst =>
    exact invariant.sourcesFirst.concat sources
  case waiting =>
    intro other otherBound
    simpa [awaited_concat unvisited] using invariant.waiting other otherBound
  case ready =>
    intro other
    have same := invariant.ready other
    simp only [first, List.mem_cons, List.count_nil, Nat.add_zero] at same
    rw [awaited_concat unvisited]
    simp only [List.mem_append, List.mem_singleton, not_or]
    constructor
    · intro later
      have old := same.mp (.inr later)
      have above : node < other := ascending.1 other later
      exact ⟨old.1, ⟨old.2.1, above.ne'⟩, old.2.2⟩
    · rintro ⟨otherBound, ⟨otherUnvisited, different⟩, zero⟩
      exact (same.mpr ⟨otherBound, otherUnvisited, zero⟩).resolve_left different
  case ascending =>
    exact ascending.2

/-- The targets of a node that is ready are nodes that have not been visited. -/
theorem Invariant.targets {graph : FlowGraph} {traversal : Traversal} {node : Nat}
    {others : List Nat} (wellFormed : graph.WellFormed) (invariant : traversal.Invariant graph [])
    (first : traversal.ready = node :: others) :
    (∀ target ∈ graph.successors node, target < graph.size) ∧
      ∀ target ∈ graph.successors node, target ∉ traversal.visited ++ [node] := by
  obtain ⟨-, notVisited, none⟩ := (invariant.ready node).mp (by simp [first])
  have sources : ∀ source ∈ graph.predecessors node, source ∈ traversal.visited :=
    awaited_eq_zero_iff.mp (by simpa using none)
  constructor
  · intro target flows
    exact (wellFormed.flows_lt (mem_successors.mp flows)).2
  -- If a target had been visited, so would have been the node, which is one of its sources.
  · intro target flows member
    have source : node ∈ graph.predecessors target :=
      mem_predecessors.mpr (mem_successors.mp flows)
    rcases List.mem_append.mp member with old | new
    · exact notVisited (invariant.sourcesFirst.mem old source)
    · obtain rfl := List.mem_singleton.mp new
      exact notVisited (sources target source)

/-- Visiting a node keeps the invariant. -/
theorem Invariant.visit {graph : FlowGraph} {traversal : Traversal}
    (wellFormed : graph.WellFormed) (invariant : traversal.Invariant graph []) :
    (traversal.visit graph).Invariant graph [] ∧
      (traversal.visit graph).visited = traversal.visited ++ traversal.ready.head?.toList := by
  unfold Traversal.visit
  split
  case h_1 empty =>
    exact ⟨invariant, by simp [empty]⟩
  case h_2 node others first =>
    obtain ⟨targets, unvisited⟩ := invariant.targets wellFormed first
    have done := (invariant.take first).foldl_release targets unvisited
    exact ⟨done.1, by simp [done.2, first]⟩

theorem after_invariant {graph : FlowGraph} (wellFormed : graph.WellFormed) (steps : Nat) :
    (after graph steps).Invariant graph [] := by
  induction steps with
  | zero => exact start_invariant graph
  | succ steps ih => exact (ih.visit wellFormed).1

/-- While nodes are left over in a graph without cycles, one of them is ready. -/
theorem Invariant.exists_ready {graph : FlowGraph} {traversal : Traversal}
    (wellFormed : graph.WellFormed) (acyclic : graph.Acyclic)
    (invariant : traversal.Invariant graph [])
    (unfinished : traversal.visited.length < graph.size) :
    ∃ node others, traversal.ready = node :: others := by
  have leftOver : { node | node < graph.size ∧ node ∉ traversal.visited }.Nonempty := by
    by_contra none
    rw [Set.not_nonempty_iff_eq_empty, Set.eq_empty_iff_forall_notMem] at none
    have covered : List.range graph.size ⊆ traversal.visited := by
      intro node member
      by_contra unvisited
      exact none node ⟨List.mem_range.mp member, unvisited⟩
    have atMost := (List.nodup_range.subperm covered).length_le
    rw [List.length_range] at atMost
    exact absurd unfinished (not_lt.mpr atMost)
  obtain ⟨node, ⟨bound, unvisited⟩, least⟩ :=
    (acyclic.wellFounded wellFormed).has_min _ leftOver
  have sources : ∀ source ∈ graph.predecessors node, source ∈ traversal.visited := by
    intro source flows
    have edge := mem_predecessors.mp flows
    by_contra waiting
    exact least source ⟨(wellFormed.flows_lt edge).1, waiting⟩ edge
  have member : node ∈ traversal.ready :=
    (invariant.ready node).mpr
      ⟨bound, unvisited, by simpa using awaited_eq_zero_iff.mpr sources⟩
  exact List.exists_cons_of_ne_nil (List.ne_nil_of_mem member)

/-- Each step of the visit of a graph without cycles visits one more node. -/
theorem length_visited_after {graph : FlowGraph} (wellFormed : graph.WellFormed)
    (acyclic : graph.Acyclic) {steps : Nat} (bound : steps ≤ graph.size) :
    (after graph steps).visited.length = steps := by
  induction steps with
  | zero => rfl
  | succ steps ih =>
      have invariant := after_invariant wellFormed steps
      have length := ih (Nat.le_of_succ_le bound)
      obtain ⟨node, others, ready⟩ :=
        invariant.exists_ready wellFormed acyclic (by omega)
      rw [after, (invariant.visit wellFormed).2]
      simp [ready, length]

/-- If all edges lead to later places, the nodes are visited by their places. -/
theorem visited_after_of_ascending {graph : FlowGraph} (wellFormed : graph.WellFormed)
    (ascending : ∀ edge ∈ graph.edges, edge.source < edge.target)
    {steps : Nat} (bound : steps ≤ graph.size) :
    (after graph steps).visited = List.range steps := by
  induction steps with
  | zero => rfl
  | succ steps ih =>
      have invariant := after_invariant wellFormed steps
      have visited := ih (Nat.le_of_succ_le bound)
      have next : steps ∈ (after graph steps).ready := by
        refine (invariant.ready steps).mpr ⟨bound, by simp [visited], ?_⟩
        have sources : graph.awaited (List.range steps) steps = 0 := by
          refine awaited_eq_zero_iff.mpr fun source flows => List.mem_range.mpr ?_
          exact ascending _ (mem_predecessors.mp flows)
        simpa [visited] using sources
      rw [after, (invariant.visit wellFormed).2, visited, List.range_succ]
      cases ready : (after graph steps).ready with
      | nil => simp [ready] at next
      | cons first others =>
          -- The least ready node comes first, and all places below `steps` have been visited.
          have unvisited := ((invariant.ready first).mp (by simp [ready])).2.1
          rw [visited, List.mem_range, not_lt] at unvisited
          have smallest := invariant.ascending
          rw [ready, List.pairwise_cons] at smallest
          rw [ready, List.mem_cons] at next
          rcases next with rfl | later
          · rfl
          · exact absurd (smallest.1 steps later) (not_lt.mpr unvisited)

end Traversal

namespace FlowGraph

/-- What the visit of a whole graph returns is an order of its nodes. -/
theorem isOrder_of_order? {graph : FlowGraph} (wellFormed : graph.WellFormed) {order : List Nat}
    (found : graph.order? = some order) :
    graph.IsOrder order := by
  have invariant := Traversal.after_invariant wellFormed graph.size
  unfold order? at found
  simp only [Option.ite_none_right_eq_some, Option.some.injEq] at found
  obtain ⟨complete, rfl⟩ := found
  refine ⟨invariant.nodup, fun node => ⟨invariant.valid node, ?_⟩, invariant.sourcesFirst⟩
  have inside : (Traversal.after graph graph.size).visited ⊆ List.range graph.size := by
    intro other member
    exact List.mem_range.mpr (invariant.valid other member)
  have permutation := (invariant.nodup.subperm inside).perm_of_length_le (by simp [complete])
  exact fun bound => permutation.mem_iff.mpr (List.mem_range.mpr bound)

/-- The visit of a graph without cycles returns an order. -/
theorem order?_of_acyclic {graph : FlowGraph} (wellFormed : graph.WellFormed)
    (acyclic : graph.Acyclic) :
    ∃ order, graph.order? = some order := by
  unfold order?
  simp [Traversal.length_visited_after wellFormed acyclic (le_refl graph.size)]

/-- A graph whose edges all lead to later places is visited by the places of its nodes. -/
theorem order?_of_ascending {graph : FlowGraph} (wellFormed : graph.WellFormed)
    (ascending : ∀ edge ∈ graph.edges, edge.source < edge.target) :
    graph.order? = some (List.range graph.size) := by
  unfold order?
  simp [Traversal.visited_after_of_ascending wellFormed ascending (le_refl graph.size)]

end FlowGraph

end Flowgraph
