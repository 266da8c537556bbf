import Flowgraph.Analysis.Propagation
import Flowgraph.Proofs.Graph.Order

/-!
# What the computed classes satisfy

The classes of a graph solve one equation for what reaches each node and one for
what it gives out (`TemporalMap.Solves`).  A fold along an order computes them: the
sources of a node come before it, so that nothing its equation speaks of changes
after its visit (`solves_of_propagate?`).

Inputs that meet are combined to the first of the most dangerous ones
(`TemporalClass.combine_splits`).  Apart from sources, a more dangerous input never
makes an operator give out something less dangerous.
-/

namespace Flowgraph

namespace TemporalClass

/-! ## Inputs that meet -/

@[simp]
theorem bounded_join (value : TemporalClass) : bounded.join value = value := by
  cases value <;> rfl

/-- The class of two inputs that meet has the greater of their ranks. -/
theorem rank_join (first second : TemporalClass) :
    (first.join second).rank = max first.rank second.rank := by
  unfold join
  split <;> omega

/-- The classes of inputs are joined one after another, from the bounded class on. -/
theorem combine_eq_foldl (values : List TemporalClass) :
    combine values = values.foldl join bounded := by
  cases values with
  | nil => rfl
  | cons first others => simp [combine]

/-- One more input is joined to what the others combine to. -/
theorem combine_concat (values : List TemporalClass) (last : TemporalClass) :
    combine (values ++ [last]) = (combine values).join last := by
  simp [combine_eq_foldl]

/--
The combined class is one of the inputs: all before it are less dangerous, and none
after it is more dangerous.
-/
theorem combine_splits {values : List TemporalClass} (nonempty : values ≠ []) :
    ∃ before after, values = before ++ combine values :: after ∧
      (∀ value ∈ before, value.rank < (combine values).rank) ∧
      ∀ value ∈ after, value.rank ≤ (combine values).rank := by
  induction values using List.reverseRecOn with
  | nil => exact absurd rfl nonempty
  | append_singleton values last ih =>
      rw [combine_concat]
      rcases eq_or_ne values [] with rfl | others
      · exact ⟨[], [], by simp [combine], by simp, by simp⟩
      · obtain ⟨before, after, split, less, atMost⟩ := ih others
        unfold join
        split
        case isTrue more =>
          refine ⟨values, [], rfl, ?_, by simp⟩
          intro value member
          rw [split] at member
          rcases List.mem_append.mp member with earlier | later
          · exact (less value earlier).trans more
          · rcases List.mem_cons.mp later with rfl | later
            · exact more
            · exact (atMost value later).trans_lt more
        case isFalse notMore =>
          refine ⟨before, after ++ [last], by rw [← List.cons_append, ← List.append_assoc, ← split],
            less, ?_⟩
          intro value member
          rcases List.mem_append.mp member with earlier | later
          · exact atMost value earlier
          · exact (List.mem_singleton.mp later) ▸ not_lt.mp notMore

/-- No input is more dangerous than all of them together. -/
theorem rank_le_combine {values : List TemporalClass} {value : TemporalClass}
    (member : value ∈ values) :
    value.rank ≤ (combine values).rank := by
  obtain ⟨before, after, split, less, atMost⟩ := combine_splits (List.ne_nil_of_mem member)
  rw [split] at member
  rcases List.mem_append.mp member with earlier | later
  · exact (less value earlier).le
  · rcases List.mem_cons.mp later with rfl | later
    · exact le_refl _
    · exact atMost value later

/-- Data is live exactly if it comes from a source that it remembers. -/
theorem provenance?_eq_none_iff (value : TemporalClass) :
    value.provenance? = none ↔ value.rank = 0 := by
  cases value <;> simp [provenance?, rank]

/-- The unbounded class is the one of rank two. -/
theorem isUnbounded_iff_rank (value : TemporalClass) :
    value.isUnbounded = true ↔ value.rank = 2 := by
  cases value <;> simp [isUnbounded, rank]

end TemporalClass

namespace Transform

/-! ## From what reaches an operator to what it gives out -/

/-- Apart from sources, operators keep the order of danger. -/
theorem rank_apply_mono {transform : Transform} (passes : transform ≠ .origin)
    {first second : TemporalClass} (atMost : first.rank ≤ second.rank)
    (options : OperatorOptions) (location : Location) :
    (transform.apply first options location).rank ≤
      (transform.apply second options location).rank := by
  cases transform with
  | origin => exact absurd rfl passes
  | preserve => exact atMost
  | window | unwindow =>
      cases first <;> cases second <;> simp_all [apply, TemporalClass.rank]

/-- Apart from sources, operators neither forget nor change where live data comes from. -/
theorem provenance?_apply {transform : Transform} (passes : transform ≠ .origin)
    (input : TemporalClass) (options : OperatorOptions) (location : Location) :
    (transform.apply input options location).provenance? = input.provenance? := by
  cases transform with
  | origin => exact absurd rfl passes
  | preserve => rfl
  | window | unwindow => cases input <;> rfl

/-- The options and the place of an operator that is no source do not matter. -/
theorem apply_congr {transform : Transform} (passes : transform ≠ .origin)
    (input : TemporalClass) (options others : OperatorOptions) (location other : Location) :
    transform.apply input options location = transform.apply input others other := by
  cases transform with
  | origin => exact absurd rfl passes
  | window | unwindow | preserve => rfl

end Transform

/-- Sources are the operators that do not look at what reaches them. -/
theorem OperatorKind.transform_eq_origin_iff (kind : OperatorKind) :
    kind.transform = .origin ↔ kind = .source := by
  cases kind <;> simp [transform]

/-! ## The equations of a graph -/

/-- What a node gives out when it receives data of a class. -/
def Node.emits (node : Node) (input : TemporalClass) : TemporalClass :=
  node.kind.transform.apply input node.options node.location

namespace TemporalMap

/-- The equations for the classes of one node. -/
def SolvesAt (graph : FlowGraph) (classes : TemporalMap) (place : Nat) : Prop :=
  ∀ node, graph.nodes[place]? = some node →
    classes.input place =
        TemporalClass.combine ((graph.predecessors place).map classes.output) ∧
      classes.output place = node.emits (classes.input place)

/-- The classes of every node satisfy its equations. -/
def Solves (graph : FlowGraph) (classes : TemporalMap) : Prop :=
  ∀ place, classes.SolvesAt graph place

/-- Whether the equations hold at a node depends on its own classes and on those before it. -/
theorem solvesAt_congr {graph : FlowGraph} {first second : TemporalMap} {place : Nat}
    (solves : first.SolvesAt graph place) (input : second.input place = first.input place)
    (output : ∀ node, node = place ∨ node ∈ graph.predecessors place →
      second.output node = first.output node) :
    second.SolvesAt graph place := by
  intro node found
  obtain ⟨inputEquation, outputEquation⟩ := solves node found
  have sources : (graph.predecessors place).map second.output =
      (graph.predecessors place).map first.output :=
    List.map_congr_left fun source member => output source (.inr member)
  constructor
  · rw [input, inputEquation, sources]
  · rw [output place (.inl rfl), input, outputEquation]

/-- A map of a graph holds a class before and one after every node. -/
def Fits (graph : FlowGraph) (classes : TemporalMap) : Prop :=
  classes.inputs.length = graph.size ∧ classes.outputs.length = graph.size

/-- Propagation starts with a class for every node. -/
theorem fits_start (graph : FlowGraph) (order : List Nat) : (start graph order).Fits graph := by
  simp [Fits, start]

/-- A visit keeps a class for every node. -/
theorem Fits.visit {graph : FlowGraph} {classes : TemporalMap} (fits : classes.Fits graph)
    (place : Nat) : (classes.visit graph place).Fits graph := by
  rw [TemporalMap.visit]
  split
  · exact fits
  · simpa [Fits] using fits

/-- A visit leaves the classes of the other nodes as they are. -/
theorem visit_of_ne {graph : FlowGraph} {classes : TemporalMap} {place other : Nat}
    (different : other ≠ place) :
    (classes.visit graph place).input other = classes.input other ∧
      (classes.visit graph place).output other = classes.output other := by
  rw [visit]
  split
  · exact ⟨rfl, rfl⟩
  · simp [input, output, List.getD, List.getElem?_set_ne different.symm]

/-- A visit of a node that is none of its own sources makes its classes satisfy the equations. -/
theorem solvesAt_visit {graph : FlowGraph} {classes : TemporalMap} {place : Nat}
    (fits : classes.Fits graph) (noLoop : place ∉ graph.predecessors place) :
    (classes.visit graph place).SolvesAt graph place := by
  intro node found
  have bound : place < graph.size := (List.getElem?_eq_some_iff.mp found).1
  have sources : (graph.predecessors place).map (classes.visit graph place).output =
      (graph.predecessors place).map classes.output := by
    refine List.map_congr_left fun source member => (visit_of_ne ?_).2
    exact fun same => noLoop (same ▸ member)
  rw [sources]
  simp [visit, found, input, output, List.getD, fits.1, fits.2, bound, Node.emits]

theorem fits_foldl {graph : FlowGraph} {classes : TemporalMap} (fits : classes.Fits graph)
    (order : List Nat) : (order.foldl (visit graph) classes).Fits graph := by
  induction order generalizing classes with
  | nil => exact fits
  | cons place rest ih => exact ih (fits.visit place)

/-- Visits along an order solve the equations of all visited nodes. -/
theorem solvesAt_foldl {graph : FlowGraph} {classes : TemporalMap} (fits : classes.Fits graph)
    {order : List Nat} (nodup : order.Nodup) (sourcesFirst : graph.SourcesFirst order) :
    ∀ place ∈ order, (order.foldl (visit graph) classes).SolvesAt graph place := by
  induction order using List.reverseRecOn with
  | nil => simp
  | append_singleton order last ih =>
      obtain ⟨earlier, -, apart⟩ := List.nodup_append.mp nodup
      have fresh : last ∉ order := fun member => apart last member last (by simp) rfl
      have firstOfEarlier : graph.SourcesFirst order := by
        intro before node after split
        exact sourcesFirst before node (after ++ [last]) (by simp [split])
      have lastSources := sourcesFirst order last [] rfl
      rw [List.foldl_append, List.foldl_cons, List.foldl_nil]
      intro place member
      rcases List.mem_append.mp member with old | new
      · -- Neither the node nor its sources are the node visited last.
        have placeNe : place ≠ last := fun same => fresh (same ▸ old)
        refine solvesAt_congr (ih earlier firstOfEarlier place old) (visit_of_ne placeNe).1 ?_
        rintro node (rfl | source)
        · exact (visit_of_ne placeNe).2
        · refine (visit_of_ne fun same => fresh ?_).2
          exact same ▸ firstOfEarlier.mem old source
      · obtain rfl := List.mem_singleton.mp new
        exact solvesAt_visit (fits_foldl fits order) fun loop => fresh (lastSources place loop)

/-- Visits leave the order as it is. -/
theorem order_foldl (graph : FlowGraph) (classes : TemporalMap) (places : List Nat) :
    (places.foldl (visit graph) classes).order = classes.order := by
  induction places generalizing classes with
  | nil => rfl
  | cons place rest ih =>
      rw [List.foldl_cons, ih, visit]
      split <;> rfl

end TemporalMap

namespace FlowGraph

variable {graph : FlowGraph} {classes : TemporalMap}

/-- Propagation goes by the order of the graph. -/
theorem order_of_propagate? (found : graph.propagate? = some classes) :
    graph.order? = some classes.order := by
  obtain ⟨order, visited, rfl⟩ := Option.map_eq_some_iff.mp found
  rw [TemporalMap.order_foldl]
  exact visited

theorem isOrder_of_propagate? (wellFormed : graph.WellFormed)
    (found : graph.propagate? = some classes) :
    graph.IsOrder classes.order :=
  isOrder_of_order? wellFormed (order_of_propagate? found)

theorem fits_of_propagate? (found : graph.propagate? = some classes) : classes.Fits graph := by
  obtain ⟨order, -, rfl⟩ := Option.map_eq_some_iff.mp found
  exact TemporalMap.fits_foldl (TemporalMap.fits_start graph order) order

/-- The computed classes satisfy the equations of every node. -/
theorem solves_of_propagate? (wellFormed : graph.WellFormed)
    (found : graph.propagate? = some classes) :
    classes.Solves graph := by
  obtain ⟨order, visited, rfl⟩ := Option.map_eq_some_iff.mp found
  have isOrder := isOrder_of_order? wellFormed visited
  intro place node present
  have bound : place < graph.size := (List.getElem?_eq_some_iff.mp present).1
  exact TemporalMap.solvesAt_foldl (TemporalMap.fits_start graph order) isOrder.nodup
    isOrder.sourcesFirst place ((isOrder.mem_iff place).mpr bound) node present

/-- Propagation succeeds on every graph without a cycle. -/
theorem propagate?_of_acyclic (wellFormed : graph.WellFormed) (acyclic : graph.Acyclic) :
    ∃ classes, graph.propagate? = some classes := by
  obtain ⟨order, found⟩ := order?_of_acyclic wellFormed acyclic
  exact ⟨_, Option.map_eq_some_iff.mpr ⟨order, found, rfl⟩⟩

/-- A graph without cycles, and the classes that are found for it. -/
structure Analyzed (graph : FlowGraph) (classes : TemporalMap) : Prop where
  wellFormed : graph.WellFormed
  acyclic : graph.Acyclic
  found : graph.propagate? = some classes

/-- The classes of an analyzed graph solve its equations. -/
theorem Analyzed.solves (analyzed : graph.Analyzed classes) : classes.Solves graph :=
  solves_of_propagate? analyzed.wellFormed analyzed.found

/-- Every place of the order is that of a node. -/
theorem Analyzed.lt_size (analyzed : graph.Analyzed classes) {place : Nat}
    (member : place ∈ classes.order) : place < graph.size :=
  ((isOrder_of_propagate? analyzed.wellFormed analyzed.found).mem_iff place).mp member

end FlowGraph

end Flowgraph
