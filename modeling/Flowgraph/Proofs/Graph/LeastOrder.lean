import Flowgraph.Proofs.Graph.Order

/-!
# The least order of a graph

A graph without cycles may have many orders in which each node comes after those from
which data flows to it.  The visit returns the least of them, where lists of places are
compared at the first place at which they differ (`order?_isLeast`).  At that place the
visit takes a node which is ready and than which no ready node is less, and what stands
there in the other order is ready as well.

The counts and the list of ready nodes are seen at work in `Traversal.Reaches`, which goes
through the visit one edge at a time and notes every node that is put on the list.
-/

namespace Flowgraph

namespace FlowGraph

variable {graph : FlowGraph} {order : List Nat}

/-! ## Orders and cycles -/

theorem isOrder_of_perm (nodes : order.Perm (List.range graph.size))
    (sourcesFirst : graph.SourcesFirst order) :
    graph.IsOrder order where
  nodup := nodes.nodup_iff.mpr List.nodup_range
  mem_iff := by
    intro node
    rw [nodes.mem_iff, List.mem_range]
  sourcesFirst := sourcesFirst

theorem IsOrder.perm_range (isOrder : graph.IsOrder order) :
    order.Perm (List.range graph.size) := by
  apply (List.perm_ext_iff_of_nodup isOrder.nodup List.nodup_range).mpr
  intro node
  rw [isOrder.mem_iff, List.mem_range]

theorem IsOrder.length_eq (isOrder : graph.IsOrder order) : order.length = graph.size := by
  rw [isOrder.perm_range.length_eq, List.length_range]

/-- Data flows from earlier nodes of an order to later ones. -/
theorem IsOrder.idxOf_lt (wellFormed : graph.WellFormed) (isOrder : graph.IsOrder order)
    {source target : Nat} (flows : graph.Flows source target) :
    order.idxOf source < order.idxOf target := by
  have member : target ∈ order := (isOrder.mem_iff target).mpr (wellFormed.flows_lt flows).2
  obtain ⟨before, after, rfl⟩ := List.append_of_mem member
  have earlier : source ∈ before :=
    isOrder.sourcesFirst before target after rfl source (mem_predecessors.mpr flows)
  have fresh : target ∉ before := by
    intro again
    exact (List.nodup_append.mp isOrder.nodup).2.2 target again target (by simp) rfl
  rw [List.idxOf_append_of_mem earlier, List.idxOf_append_of_notMem fresh, List.idxOf_cons_self]
  exact (List.idxOf_lt_length_iff.mpr earlier).trans_le (Nat.le_add_right _ _)

/-- A graph that has an order has no cycle. -/
theorem IsOrder.acyclic (wellFormed : graph.WellFormed) (isOrder : graph.IsOrder order) :
    graph.Acyclic := by
  have later : ∀ first last, Relation.TransGen graph.Flows first last →
      order.idxOf first < order.idxOf last := by
    intro first last way
    induction way with
    | single flows => exact isOrder.idxOf_lt wellFormed flows
    | tail _ flows ih => exact ih.trans (isOrder.idxOf_lt wellFormed flows)
  exact fun node cycle => Nat.lt_irrefl _ (later node node cycle)

end FlowGraph

namespace Traversal

variable {graph : FlowGraph} {traversal : Traversal}

/-! ## Comparing the visit with another order -/

/-- A list begins like another one, or with something less where the two first differ. -/
def Leads (list other : List Nat) : Prop :=
  list <+: other ∨ ∃ common less more rest otherRest,
    list = common ++ less :: rest ∧ other = common ++ more :: otherRest ∧ less < more

theorem Leads.append_of_differs {list other : List Nat} (differs : ¬ list <+: other)
    (leads : Leads list other) (added : List Nat) : Leads (list ++ added) other := by
  obtain ⟨common, less, more, rest, otherRest, rfl, rfl, below⟩ := leads.resolve_left differs
  exact .inr ⟨common, less, more, rest ++ added, otherRest, by simp, rfl, below⟩

theorem Leads.eq_or_lex {list other : List Nat} (leads : Leads list other)
    (same : list.length = other.length) :
    list = other ∨ List.Lex (· < ·) list other := by
  rcases leads with begins | ⟨common, less, more, rest, otherRest, rfl, rfl, below⟩
  · exact .inl (begins.eq_of_length same)
  · exact .inr (List.Lex.append_left _ (.rel below) common)

/-- The node that an order visits next is ready. -/
theorem Invariant.mem_ready (invariant : traversal.Invariant graph []) {next : Nat}
    {rest : List Nat} (isOrder : graph.IsOrder (traversal.visited ++ next :: rest)) :
    next ∈ traversal.ready := by
  refine (invariant.ready next).mpr ⟨?_, ?_, ?_⟩
  · exact (isOrder.mem_iff next).mp (by simp)
  · intro again
    exact (List.nodup_append.mp isOrder.nodup).2.2 next again next (by simp) rfl
  · have sources := isOrder.sourcesFirst traversal.visited next rest rfl
    simpa using FlowGraph.awaited_eq_zero_iff.mpr sources

/-- A visit of one more node leads any order that the visit has led so far. -/
theorem Invariant.leads_visit (wellFormed : graph.WellFormed)
    (invariant : traversal.Invariant graph []) {other : List Nat}
    (isOrder : graph.IsOrder other) (leads : Leads traversal.visited other) :
    Leads (traversal.visit graph).visited other := by
  rw [(invariant.visit wellFormed).2]
  by_cases begins : traversal.visited <+: other
  · obtain ⟨unvisited, rfl⟩ := begins
    cases unvisited with
    | nil =>
        -- All nodes have been visited, so that none is ready.
        have none : traversal.ready = [] := by
          refine List.eq_nil_iff_forall_not_mem.mpr fun node isReady => ?_
          obtain ⟨bound, fresh, -⟩ := (invariant.ready node).mp isReady
          rw [List.append_nil] at isOrder
          exact fresh ((isOrder.mem_iff node).mpr bound)
        exact .inl (by simp [none])
    | cons next rest =>
        have isReady := invariant.mem_ready isOrder
        have ascending := invariant.ascending
        cases ready : traversal.ready with
        | nil => simp [ready] at isReady
        | cons first others =>
            rw [ready, List.pairwise_cons] at ascending
            rw [ready, List.mem_cons] at isReady
            rcases isReady with rfl | later
            · exact .inl ⟨rest, by simp⟩
            · exact .inr ⟨traversal.visited, first, next, [], rest, by simp, rfl,
                ascending.1 next later⟩
  · exact leads.append_of_differs begins _

theorem leads_after (wellFormed : graph.WellFormed) {other : List Nat}
    (isOrder : graph.IsOrder other) (steps : Nat) :
    Leads (after graph steps).visited other := by
  induction steps with
  | zero => exact .inl (List.nil_prefix)
  | succ steps ih =>
      exact (after_invariant wellFormed steps).leads_visit wellFormed isOrder ih

/-! ## One edge at a time -/

/--
What the visit of a graph reaches on its way.  `pending` lists the targets of those edges of
the last visited node that have not been taken off the counts yet, and `listed` the nodes
that have been put on the list of ready nodes since the beginning.
-/
inductive Reaches (graph : FlowGraph) : List Nat → List Nat → Traversal → Prop where
  | start : Reaches graph [] (start graph).ready (start graph)
  | take {listed others : List Nat} {traversal : Traversal} {node : Nat}
      (reached : Reaches graph [] listed traversal)
      (first : traversal.ready = node :: others) :
      Reaches graph (graph.successors node) listed
        { traversal with visited := traversal.visited ++ [node], ready := others }
  | wait {pending listed : List Nat} {traversal : Traversal} {node : Nat}
      (reached : Reaches graph (node :: pending) listed traversal)
      (same : (traversal.release node).ready = traversal.ready) :
      Reaches graph pending listed (traversal.release node)
  | list {pending listed : List Nat} {traversal : Traversal} {node : Nat}
      (reached : Reaches graph (node :: pending) listed traversal)
      (added : (traversal.release node).ready = insertAscending node traversal.ready) :
      Reaches graph pending (listed ++ [node]) (traversal.release node)

theorem ready_release (traversal : Traversal) (node : Nat) :
    (traversal.release node).ready = traversal.ready ∨
      (traversal.release node).ready = insertAscending node traversal.ready := by
  unfold release
  dsimp only
  split
  · exact .inr rfl
  · exact .inl rfl

theorem Reaches.foldl_release {pending listed : List Nat}
    (reached : Reaches graph pending listed traversal) :
    ∃ listed, Reaches graph [] listed (pending.foldl Traversal.release traversal) := by
  induction pending generalizing listed traversal with
  | nil => exact ⟨listed, reached⟩
  | cons node rest ih =>
      rcases traversal.ready_release node with same | added
      · exact ih (reached.wait same)
      · exact ih (reached.list added)

/-- The visit of a graph reaches what is there after the visits of its nodes. -/
theorem exists_reaches_after (graph : FlowGraph) (steps : Nat) :
    ∃ listed, Reaches graph [] listed (after graph steps) := by
  induction steps with
  | zero => exact ⟨_, .start⟩
  | succ steps ih =>
      obtain ⟨listed, reached⟩ := ih
      rw [after, Traversal.visit]
      split
      · exact ⟨listed, reached⟩
      · next first => exact (reached.take first).foldl_release

/--
The invariant of the visit, with the nodes that have been put on the list of ready nodes:
each of them once, and each is still on the list or has been visited.
-/
structure Noted (graph : FlowGraph) (pending listed : List Nat) (traversal : Traversal) :
    Prop where
  invariant : traversal.Invariant graph pending
  bound : ∀ node ∈ pending, node < graph.size
  unvisited : ∀ node ∈ pending, node ∉ traversal.visited
  nodup : listed.Nodup
  mem_listed : ∀ node, node ∈ listed ↔ node ∈ traversal.visited ∨ node ∈ traversal.ready

theorem noted_start (graph : FlowGraph) :
    (start graph).Noted graph [] (start graph).ready where
  invariant := start_invariant graph
  bound := by simp
  unvisited := by simp
  nodup := (start_invariant graph).ascending.imp Nat.ne_of_lt
  mem_listed := by simp [start]

theorem Noted.take (wellFormed : graph.WellFormed) {listed others : List Nat} {node : Nat}
    (noted : traversal.Noted graph [] listed) (first : traversal.ready = node :: others) :
    Noted graph (graph.successors node) listed
      { traversal with visited := traversal.visited ++ [node], ready := others } where
  invariant := noted.invariant.take first
  bound := (noted.invariant.targets wellFormed first).1
  unvisited := (noted.invariant.targets wellFormed first).2
  nodup := noted.nodup
  mem_listed := by
    intro other
    rw [noted.mem_listed, first, List.mem_append, List.mem_cons, List.mem_singleton, or_assoc]

/-- One edge less is pending; what has been listed is on the list now or has been visited. -/
theorem Noted.release {pending listed later : List Nat} {node : Nat}
    (noted : traversal.Noted graph (node :: pending) listed) (nodup : later.Nodup)
    (mem_later : ∀ other,
      other ∈ later ↔ other ∈ traversal.visited ∨ other ∈ (traversal.release node).ready) :
    (traversal.release node).Noted graph pending later where
  invariant := noted.invariant.release (noted.bound node (by simp)) (noted.unvisited node (by simp))
  bound := fun other member => noted.bound other (List.mem_cons_of_mem _ member)
  unvisited := by
    intro other member
    rw [visited_release]
    exact noted.unvisited other (List.mem_cons_of_mem _ member)
  nodup := nodup
  mem_listed := by
    intro other
    rw [mem_later, visited_release]

/-- A node with a pending edge has not been listed: it is neither visited nor ready. -/
theorem Noted.fresh {pending listed : List Nat} {node : Nat}
    (noted : traversal.Noted graph (node :: pending) listed) : node ∉ listed := by
  rw [noted.mem_listed, noted.invariant.ready]
  simp [noted.unvisited node (by simp)]

theorem Reaches.noted (wellFormed : graph.WellFormed) {pending listed : List Nat}
    (reached : Reaches graph pending listed traversal) :
    traversal.Noted graph pending listed := by
  induction reached with
  | start => exact noted_start graph
  | take reached first ih => exact ih.take wellFormed first
  | wait reached same ih =>
      refine ih.release ih.nodup fun other => ?_
      rw [same, ih.mem_listed]
  | list reached added ih =>
      refine ih.release ?_ fun other => ?_
      · rw [← List.concat_eq_append]
        exact ih.nodup.concat ih.fresh
      · rw [added, mem_insertAscending, List.mem_append, ih.mem_listed, List.mem_singleton,
          or_assoc, or_comm (a := other ∈ _) (b := other = _)]

end Traversal

namespace FlowGraph

/--
The visit of a graph returns an order exactly if the graph has no cycle: each node once,
after those from which data flows to it, and of all such orders the least.  On the way,
every node has a count that is never negative, and is put on the list of ready nodes at
most once.
-/
theorem order?_isLeast {graph : FlowGraph} (wellFormed : graph.WellFormed) :
    ((∃ order, graph.order? = some order) ↔ graph.Acyclic) ∧
      (∀ order, graph.order? = some order →
        order.Perm (List.range graph.size) ∧ graph.SourcesFirst order ∧
        ∀ other : List Nat, other.Perm (List.range graph.size) → graph.SourcesFirst other →
          order = other ∨ List.Lex (· < ·) order other) ∧
      (∀ steps, ∃ listed, Traversal.Reaches graph [] listed (Traversal.after graph steps)) ∧
      ∀ pending listed traversal, Traversal.Reaches graph pending listed traversal →
        (∀ node < graph.size, ∃ count : Nat, traversal.waiting[node]? = some (count : Int)) ∧
        listed.Nodup := by
  refine ⟨⟨?_, order?_of_acyclic wellFormed⟩, ?_, Traversal.exists_reaches_after graph, ?_⟩
  · rintro ⟨order, found⟩
    exact (isOrder_of_order? wellFormed found).acyclic wellFormed
  · intro order found
    have isOrder := isOrder_of_order? wellFormed found
    refine ⟨isOrder.perm_range, isOrder.sourcesFirst, ?_⟩
    intro other nodes sourcesFirst
    have isOther := isOrder_of_perm nodes sourcesFirst
    have visited : (Traversal.after graph graph.size).visited = order := by
      unfold order? at found
      simp only [Option.ite_none_right_eq_some, Option.some.injEq] at found
      exact found.2
    have leads := Traversal.leads_after wellFormed isOther graph.size
    rw [visited] at leads
    exact leads.eq_or_lex (by rw [isOrder.length_eq, isOther.length_eq])
  · intro pending listed traversal reached
    have noted := reached.noted wellFormed
    exact ⟨fun node bound => ⟨_, noted.invariant.waiting node bound⟩, noted.nodup⟩

/-- Three sources, the first of which waits for two edges from the last. -/
def backEdges : FlowGraph where
  nodes := List.replicate 3 ⟨"emit", .source, {}, ⟨SourceFile.defaultName, default, default⟩⟩
  edges := [⟨2, 0⟩, ⟨2, 0⟩]

theorem order?_isLeast_of_backEdges :
    backEdges.WellFormed ∧ backEdges.Acyclic ∧ backEdges.order? = some [1, 2, 0] ∧
      ∀ other : List Nat, other.Perm (List.range 3) → backEdges.SourcesFirst other →
        [1, 2, 0] = other ∨ List.Lex (· < ·) [1, 2, 0] other := by
  have wellFormed : backEdges.WellFormed := by decide
  have found : backEdges.order? = some [1, 2, 0] := by decide
  obtain ⟨exists_iff, least, -, -⟩ := order?_isLeast wellFormed
  exact ⟨wellFormed, exists_iff.mp ⟨_, found⟩, found, (least _ found).2.2⟩

end FlowGraph

end Flowgraph
