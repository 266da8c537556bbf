import Flowgraph.Analysis.Runaway
import Mathlib.Data.List.Basic
import Mathlib.Data.List.GetD
import Mathlib.Logic.Function.Basic

/-!
# Analyses of nodes that are located elsewhere

Live data carries the location of its source through the whole graph.  The analysis looks at
the classes of the data in two ways: how dangerous they are, which does not depend on the
locations, and, on the way back from a violation, whether they are equal.  So a change of all
locations that keeps different ones apart changes the locations in the results, and nothing
else (`FlowGraph.propagate?_mapLocations`, `FlowGraph.violations_mapLocations`).

A diagnostic names bytes only.  If the change keeps the bytes of every location, as a
different name of the source does, the diagnostics stay as they are.
-/

namespace Flowgraph

variable (move : Location → Location)

/-! ## Classes -/

namespace TemporalClass

/-- The class with the location that it carries changed. -/
def mapLocation : TemporalClass → TemporalClass
  | bounded => bounded
  | liveWindowed location => liveWindowed (move location)
  | liveUnbounded location => liveUnbounded (move location)

@[simp]
theorem rank_mapLocation (value : TemporalClass) : (value.mapLocation move).rank = value.rank := by
  cases value <;> rfl

@[simp]
theorem isUnbounded_mapLocation (value : TemporalClass) :
    (value.mapLocation move).isUnbounded = value.isUnbounded := by
  cases value <;> rfl

@[simp]
theorem provenance?_mapLocation (value : TemporalClass) :
    (value.mapLocation move).provenance? = value.provenance?.map move := by
  cases value <;> rfl

variable {move} in
/-- Classes with different places keep different places. -/
theorem mapLocation_injective (injective : Function.Injective move) :
    Function.Injective (mapLocation move) := by
  intro first second same
  cases first <;> cases second <;> simp_all [mapLocation, injective.eq_iff]

/-- Which of two classes is taken does not depend on places. -/
theorem join_mapLocation (first second : TemporalClass) :
    (first.mapLocation move).join (second.mapLocation move) =
      (first.join second).mapLocation move := by
  simp only [join, rank_mapLocation]
  split <;> rfl

/-- Which of several classes is taken does not depend on places. -/
theorem combine_mapLocation (values : List TemporalClass) :
    combine (values.map (mapLocation move)) = (combine values).mapLocation move := by
  cases values with
  | nil => rfl
  | cons first others =>
      rw [List.map_cons, combine, combine, List.foldl_map]
      exact List.foldl_hom _ fun value next => join_mapLocation move value next

end TemporalClass

/-- An operator makes the same of a class at any place. -/
theorem Transform.apply_mapLocation (transform : Transform) (input : TemporalClass)
    (options : OperatorOptions) (location : Location) :
    transform.apply (input.mapLocation move) options (move location) =
      (transform.apply input options location).mapLocation move := by
  cases transform with
  | origin =>
      simp only [apply]
      split <;> rfl
  | window | unwindow | preserve => cases input <;> rfl

/-- Whether a class is refused does not depend on places. -/
theorem Requirement.admits_mapLocation (requirement : Requirement) (input : TemporalClass) :
    requirement.admits (input.mapLocation move) = requirement.admits input := by
  cases requirement <;> simp [admits]

/-! ## Graphs and maps of classes -/

/-- The node at the changed location. -/
def Node.mapLocation (node : Node) : Node :=
  { node with location := move node.location }

/-- The map with the locations in all classes changed. -/
def TemporalMap.mapLocations (classes : TemporalMap) : TemporalMap where
  order := classes.order
  inputs := classes.inputs.map (TemporalClass.mapLocation move)
  outputs := classes.outputs.map (TemporalClass.mapLocation move)

namespace TemporalMap

@[simp]
theorem input_mapLocations (classes : TemporalMap) (place : Nat) :
    (classes.mapLocations move).input place = (classes.input place).mapLocation move :=
  List.getD_map classes.inputs .bounded (TemporalClass.mapLocation move)

@[simp]
theorem output_mapLocations (classes : TemporalMap) (place : Nat) :
    (classes.mapLocations move).output place = (classes.output place).mapLocation move :=
  List.getD_map classes.outputs .bounded (TemporalClass.mapLocation move)

end TemporalMap

namespace FlowGraph

/-- The graph with all its nodes at changed locations. -/
def mapLocations (graph : FlowGraph) : FlowGraph :=
  { graph with nodes := graph.nodes.map (Node.mapLocation move) }

@[simp]
theorem size_mapLocations (graph : FlowGraph) : (graph.mapLocations move).size = graph.size :=
  List.length_map _

@[simp]
theorem predecessors_mapLocations (graph : FlowGraph) (place : Nat) :
    (graph.mapLocations move).predecessors place = graph.predecessors place :=
  rfl

theorem getElem?_mapLocations (graph : FlowGraph) (place : Nat) :
    (graph.mapLocations move).nodes[place]? = graph.nodes[place]?.map (Node.mapLocation move) :=
  List.getElem?_map

/-! ## Propagation -/

/-- The nodes are visited in the same order whatever their places are. -/
theorem after_mapLocations (graph : FlowGraph) (steps : Nat) :
    Traversal.after (graph.mapLocations move) steps = Traversal.after graph steps := by
  induction steps with
  | zero => simp [Traversal.after, Traversal.start]
  | succ steps ih =>
      rw [Traversal.after, ih]
      rfl

theorem order?_mapLocations (graph : FlowGraph) :
    (graph.mapLocations move).order? = graph.order? := by
  simp only [order?, size_mapLocations, after_mapLocations]

/-- A visit gives the same classes, with places moved. -/
theorem visit_mapLocations (graph : FlowGraph) (classes : TemporalMap) (place : Nat) :
    (classes.mapLocations move).visit (graph.mapLocations move) place =
      (classes.visit graph place).mapLocations move := by
  rw [TemporalMap.visit, TemporalMap.visit, getElem?_mapLocations]
  cases graph.nodes[place]? with
  | none => rfl
  | some node =>
      have given : (graph.predecessors place).map (classes.mapLocations move).output =
          ((graph.predecessors place).map classes.output).map (TemporalClass.mapLocation move) := by
        rw [List.map_map]
        exact List.map_congr_left fun giver _ => classes.output_mapLocations move giver
      simp only [Option.map_some, predecessors_mapLocations, given,
        TemporalClass.combine_mapLocation, Node.mapLocation, Transform.apply_mapLocation]
      simp only [TemporalMap.mapLocations, List.map_set]

/-- The classes at nodes that are located elsewhere are the same but for their locations. -/
theorem propagate?_mapLocations (graph : FlowGraph) :
    (graph.mapLocations move).propagate? =
      graph.propagate?.map (TemporalMap.mapLocations move) := by
  rw [propagate?, propagate?, order?_mapLocations, Option.map_map]
  refine Option.map_congr fun order _ => ?_
  have start : TemporalMap.start (graph.mapLocations move) order =
      (TemporalMap.start graph order).mapLocations move := by
    simp [TemporalMap.start, TemporalMap.mapLocations, TemporalClass.mapLocation]
  rw [start, Function.comp_apply]
  exact List.foldl_hom _ fun classes place => visit_mapLocations move graph classes place

end FlowGraph

/-! ## Violations -/

/-- The hop at the changed location. -/
def Hop.mapLocation (hop : Hop) : Hop :=
  { hop with location := move hop.location }

/-- The violation with all its locations changed. -/
def Violation.mapLocations (violation : Violation) : Violation :=
  { violation with
    operatorLocation := move violation.operatorLocation
    provenance := move violation.provenance
    path := violation.path.map (Hop.mapLocation move) }

/-- If no bytes are moved, a violation is explained as before. -/
theorem Violation.diagnostic_mapLocations
    (keepsBytes : ∀ location, (move location).span = location.span) (violation : Violation) :
    (violation.mapLocations move).diagnostic = violation.diagnostic := by
  have causes : ∀ diagnostic : Diagnostic,
      (violation.path.map (Hop.mapLocation move)).foldl
          (fun diagnostic hop => diagnostic.withCause hop.description (some hop.location.span))
          diagnostic =
        violation.path.foldl
          (fun diagnostic hop => diagnostic.withCause hop.description (some hop.location.span))
          diagnostic := by
    intro diagnostic
    rw [List.foldl_map]
    congr 1
    funext diagnostic hop
    rw [Hop.mapLocation, keepsBytes]
    rfl
  rw [diagnostic, mapLocations, causes, keepsBytes, keepsBytes]
  rfl

namespace FlowGraph

section Injective

variable {move} (injective : Function.Injective move)

include injective

/-- The way back goes through the same nodes: equal classes are found where they were before. -/
theorem wayBack_mapLocations (graph : FlowGraph) (classes : TemporalMap) (steps place : Nat) :
    (graph.mapLocations move).wayBack (classes.mapLocations move) steps place =
      (graph.wayBack classes steps place).map (Hop.mapLocation move) := by
  induction steps generalizing place with
  | zero => rfl
  | succ steps ih =>
      have giver : ((graph.mapLocations move).predecessors place).find? (fun predecessor =>
            (classes.mapLocations move).output predecessor =
              (classes.mapLocations move).input place) =
          (graph.predecessors place).find? fun predecessor =>
            classes.output predecessor = classes.input place := by
        simp only [predecessors_mapLocations, classes.output_mapLocations,
          classes.input_mapLocations, (TemporalClass.mapLocation_injective injective).eq_iff]
      rw [wayBack, wayBack, giver]
      cases (graph.predecessors place).find? fun predecessor =>
          classes.output predecessor = classes.input place with
      | none => rfl
      | some predecessor =>
          simp only [getElem?_mapLocations]
          cases graph.nodes[predecessor]? with
          | none => rfl
          | some node =>
              simp only [Option.map_some, Node.mapLocation, ih]
              split <;> rfl

/-- The same nodes are refused, with places moved. -/
theorem violationAt?_mapLocations (graph : FlowGraph) (classes : TemporalMap) (place : Nat) :
    (graph.mapLocations move).violationAt? (classes.mapLocations move) place =
      (graph.violationAt? classes place).map (Violation.mapLocations move) := by
  have path : (graph.mapLocations move).livePath (classes.mapLocations move) place =
      (graph.livePath classes place).map (Hop.mapLocation move) := by
    rw [livePath, livePath, size_mapLocations, wayBack_mapLocations injective, List.map_reverse]
  simp only [violationAt?, getElem?_mapLocations]
  cases graph.nodes[place]? with
  | none => rfl
  | some node =>
      simp only [Option.map_some, Node.mapLocation, classes.input_mapLocations,
        Requirement.admits_mapLocation, TemporalClass.provenance?_mapLocation, path]
      split
      · rfl
      · rw [Option.map_map, Option.map_map]
        rfl

/-- The violations of nodes that are located elsewhere are the same but for their locations. -/
theorem violations_mapLocations (graph : FlowGraph) (classes : TemporalMap) :
    (graph.mapLocations move).violations (classes.mapLocations move) =
      (graph.violations classes).map (Violation.mapLocations move) := by
  rw [violations, violations, List.map_filterMap]
  exact List.filterMap_congr fun place _ => violationAt?_mapLocations injective graph classes place

/-- The same violations are found, with places moved. -/
theorem findViolations?_mapLocations (graph : FlowGraph) :
    (graph.mapLocations move).findViolations? =
      graph.findViolations?.map (List.map (Violation.mapLocations move)) := by
  rw [findViolations?, findViolations?, propagate?_mapLocations, Option.map_map, Option.map_map]
  exact congrFun (congrArg Option.map
    (funext fun classes => violations_mapLocations injective graph classes)) graph.propagate?

end Injective

end FlowGraph

end Flowgraph
