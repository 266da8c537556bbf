import Flowgraph.Analysis.Runaway
import Flowgraph.Proofs.Analysis.LivePath

/-!
# Who is to blame

Live data that reaches a node was handed on, step by step and without any change,
from a source without end.  Each step goes from a node to the first of its inputs
that brought the combined class; this is the input that the combination selects,
because it is the first of the most dangerous ones.  As the graph has no cycle, the
way back ends, and it can only end at a source (`exists_blamePath`).

The way back that is reported with a violation is this way (`wayBack_of_walksBack`).
The number of steps it is given never ends it early.
-/

namespace Flowgraph

namespace FlowGraph

/-- The first predecessor of a node that gives out the class that reaches the node. -/
def giver? (graph : FlowGraph) (classes : TemporalMap) (place : Nat) : Option Nat :=
  (graph.predecessors place).find? fun predecessor =>
    classes.output predecessor = classes.input place

/--
One node hands its class on to the next.  It is the first input of the next node with
this class, and the one that the combination selects: the inputs before it are less
dangerous, and none after it is more dangerous.
-/
structure HandsOn (graph : FlowGraph) (classes : TemporalMap) (first second : Nat) : Prop where
  flows : graph.Flows first second
  output_eq_input : classes.output first = classes.input second
  isGiver : graph.giver? classes second = some first
  isSelected : ∃ before after, graph.predecessors second = before ++ first :: after ∧
    (∀ other ∈ before, (classes.output other).rank < (classes.output first).rank) ∧
    ∀ other ∈ after, (classes.output other).rank ≤ (classes.output first).rank

/--
A source without end, at the location to be blamed, hands its class on to a node by
way of the listed operators, none of them a source.
-/
inductive BlamePath (graph : FlowGraph) (classes : TemporalMap) (source : Nat)
    (blamed : Location) : List Nat → Nat → Prop where
  | direct {node : Node} {place : Nat}
      (present : graph.nodes[source]? = some node)
      (isSource : node.kind = .source)
      (unending : node.options.upperBound = .unending)
      (location : node.location = blamed)
      (step : graph.HandsOn classes source place) :
      BlamePath graph classes source blamed [] place
  | through {inner : List Nat} {middle place : Nat} {node : Node}
      (path : BlamePath graph classes source blamed inner middle)
      (present : graph.nodes[middle]? = some node)
      (passes : node.kind ≠ .source)
      (step : graph.HandsOn classes middle place) :
      BlamePath graph classes source blamed (inner ++ [middle]) place

/--
The search for the blamed source as a loop without any bound on its steps: it ends
where no predecessor gives out the class, or at a source.
-/
inductive WalksBack (graph : FlowGraph) (classes : TemporalMap) : Nat → List Hop → Prop where
  | lost {place : Nat} (none : graph.giver? classes place = none) :
      WalksBack graph classes place []
  | atSource {place predecessor : Nat} {node : Node}
      (found : graph.giver? classes place = some predecessor)
      (present : graph.nodes[predecessor]? = some node)
      (origin : node.kind.transform = .origin) :
      WalksBack graph classes place []
  | back {place predecessor : Nat} {node : Node} {hops : List Hop}
      (found : graph.giver? classes place = some predecessor)
      (present : graph.nodes[predecessor]? = some node)
      (passes : node.kind.transform ≠ .origin)
      (walk : WalksBack graph classes predecessor hops) :
      WalksBack graph classes place (⟨node.name, node.kind.transform, node.location⟩ :: hops)

variable {graph : FlowGraph} {classes : TemporalMap}

/-- Live data that reaches a node has a giver, and the giver hands it on. -/
theorem exists_handsOn (solves : classes.Solves graph) {place : Nat} {node : Node}
    (present : graph.nodes[place]? = some node)
    (live : (classes.input place).provenance? ≠ none) :
    ∃ giver, graph.HandsOn classes giver place := by
  have combined := (solves place node present).1
  have nonempty : (graph.predecessors place).map classes.output ≠ [] := by
    intro empty
    rw [combined, empty] at live
    exact live rfl
  obtain ⟨before, after, split, less, atMost⟩ := TemporalClass.combine_splits nonempty
  rw [← combined] at split less atMost
  obtain ⟨earlier, others, places, rfl, rest⟩ := List.map_eq_append_iff.mp split
  obtain ⟨giver, later, rfl, output, rfl⟩ := List.map_eq_cons_iff.mp rest
  have less : ∀ other ∈ earlier, (classes.output other).rank < (classes.output giver).rank := by
    intro other member
    exact output ▸ less _ (List.mem_map_of_mem member)
  refine ⟨giver, mem_predecessors.mp (by simp [places]), output, ?_, earlier, later, places, less,
    ?_⟩
  · -- The inputs before the giver are less dangerous, so none of them has its class.
    rw [giver?, places, List.find?_eq_some_iff_append]
    refine ⟨by simpa using output, earlier, later, rfl, ?_⟩
    intro other member
    have differs : classes.output other ≠ classes.input place := by
      intro same
      exact absurd (less other member) (by simp [same, output])
    simpa using differs
  · intro other member
    exact output ▸ atMost _ (List.mem_map_of_mem member)

/-- Live data that reaches a node comes from a source that is to blame for it. -/
theorem exists_blamePath (wellFormed : graph.WellFormed) (acyclic : graph.Acyclic)
    (solves : classes.Solves graph) {place : Nat} {node : Node}
    (present : graph.nodes[place]? = some node) {blamed : Location}
    (live : (classes.input place).provenance? = some blamed) :
    ∃ source inner, graph.BlamePath classes source blamed inner place := by
  induction place using (acyclic.wellFounded wellFormed).induction generalizing node with
  | _ place ih =>
      obtain ⟨giver, step⟩ := exists_handsOn solves present (by simp [live])
      obtain ⟨giverNode, giverPresent⟩ := (wellFormed.exists_node step.flows).1
      have output := (solves giver giverNode giverPresent).2
      rw [step.output_eq_input] at output
      rcases eq_or_ne giverNode.kind .source with isSource | passes
      · cases bound : giverNode.options.upperBound with
        | fixed =>
            rw [output, giverNode.emits_of_fixed isSource bound] at live
            cases live
        | unending =>
            rw [output, giverNode.emits_of_source isSource bound,
              giverNode.provenance?_liveClass] at live
            exact ⟨giver, [], .direct giverPresent isSource bound (Option.some.inj live) step⟩
      · have before : (classes.input giver).provenance? = some blamed := by
          rw [← live, output]
          exact (Transform.provenance?_apply (Node.transform_ne_origin passes) _ _ _).symm
        obtain ⟨source, inner, path⟩ := ih giver step.flows giverPresent before
        exact ⟨source, inner ++ [giver], .through path giverPresent passes step⟩

/-- The blamed location is that of a source. -/
theorem BlamePath.exists_source {source place : Nat} {blamed : Location} {inner : List Nat}
    (path : graph.BlamePath classes source blamed inner place) :
    ∃ node, graph.nodes[source]? = some node ∧ node.kind = .source ∧ node.location = blamed := by
  induction path with
  | direct present isSource unending location step => exact ⟨_, present, isSource, location⟩
  | through path present passes step ih => exact ih

/-- The class that reaches the end of the path carries the blamed location. -/
theorem BlamePath.provenance? (solves : classes.Solves graph) {source place : Nat}
    {blamed : Location} {inner : List Nat}
    (path : graph.BlamePath classes source blamed inner place) :
    (classes.input place).provenance? = some blamed := by
  induction path with
  | direct present isSource unending location step =>
      rw [← step.output_eq_input, (solves _ _ present).2,
        Node.emits_of_source isSource unending, Node.provenance?_liveClass, location]
  | through path present passes step ih =>
      rw [← step.output_eq_input, (solves _ _ present).2, ← ih]
      exact Transform.provenance?_apply (Node.transform_ne_origin passes) _ _ _

/-- What a blamed source hands on is the data of a live path. -/
theorem BlamePath.livePath (solves : classes.Solves graph) {source place : Nat}
    {blamed : Location} {inner : List Nat}
    (path : graph.BlamePath classes source blamed inner place) :
    graph.LivePath source inner place (classes.input place) := by
  induction path with
  | @direct node place present isSource unending location step =>
      rw [← step.output_eq_input, (solves source node present).2,
        node.emits_of_source isSource unending]
      exact .direct present isSource unending step.flows
  | @through inner middle place node path present passes step ih =>
      rw [← step.output_eq_input, (solves middle node present).2]
      exact .through ih present passes step.flows

/-! ## The reported way -/

/-- The operator at a place, as the report of a violation shows it. -/
def hop? (graph : FlowGraph) (place : Nat) : Option Hop :=
  graph.nodes[place]?.map fun node => ⟨node.name, node.kind.transform, node.location⟩

theorem filterMap_hop?_concat {inner : List Nat} {middle : Nat} {node : Node}
    (present : graph.nodes[middle]? = some node) :
    (inner ++ [middle]).filterMap graph.hop? =
      inner.filterMap graph.hop? ++ [⟨node.name, node.kind.transform, node.location⟩] := by
  rw [List.filterMap_append, List.filterMap_cons_some (b := _) (by rw [hop?, present]; rfl)]
  rfl

theorem BlamePath.map_hop? {source place : Nat} {blamed : Location} {inner : List Nat}
    (path : graph.BlamePath classes source blamed inner place) :
    (inner.filterMap graph.hop?).map some = inner.map graph.hop? := by
  induction path with
  | direct => rfl
  | through path present passes step ih =>
      simp [ih, hop?, present]

/-- The loop that looks for the source to blame walks along the path and ends. -/
theorem BlamePath.walksBack {source place : Nat} {blamed : Location} {inner : List Nat}
    (path : graph.BlamePath classes source blamed inner place) :
    graph.WalksBack classes place (inner.filterMap graph.hop?).reverse := by
  induction path with
  | direct present isSource unending location step =>
      exact .atSource step.isGiver present (by simp [isSource, OperatorKind.transform])
  | through path present passes step ih =>
      rw [filterMap_hop?_concat present, List.reverse_concat]
      exact .back step.isGiver present (Node.transform_ne_origin passes) ih

/-- The transforms of the operators on the way make the class of the source what arrives. -/
theorem BlamePath.foldl_apply (solves : classes.Solves graph) {source place : Nat}
    {blamed : Location} {inner : List Nat}
    (path : graph.BlamePath classes source blamed inner place) (options : Hop → OperatorOptions) :
    (inner.filterMap graph.hop?).foldl
        (fun value hop => hop.transform.apply value (options hop) hop.location)
        (classes.output source) =
      classes.input place := by
  induction path with
  | direct present isSource unending location step =>
      exact step.output_eq_input
  | @through inner middle place node path present passes step ih =>
      rw [← step.output_eq_input, (solves middle node present).2]
      rw [filterMap_hop?_concat present, List.foldl_concat, ih]
      exact Transform.apply_congr (Node.transform_ne_origin passes) _ _ _ _ _

theorem BlamePath.reaches {source place : Nat} {blamed : Location} {inner : List Nat}
    (path : graph.BlamePath classes source blamed inner place) :
    ∀ node ∈ source :: inner, Relation.TransGen graph.Flows node place := by
  induction path with
  | direct present isSource unending location step =>
      intro node member
      exact List.mem_singleton.mp member ▸ .single step.flows
  | through path present passes step ih =>
      intro node member
      rw [← List.cons_append] at member
      rcases List.mem_append.mp member with earlier | last
      · exact (ih node earlier).tail step.flows
      · exact List.mem_singleton.mp last ▸ .single step.flows

/-- In a graph without cycles no node stands on such a path twice. -/
theorem BlamePath.nodup (acyclic : graph.Acyclic) {source place : Nat} {blamed : Location}
    {inner : List Nat} (path : graph.BlamePath classes source blamed inner place) :
    (source :: inner).Nodup := by
  induction path with
  | direct => exact List.nodup_singleton source
  | through path present passes step ih =>
      rw [← List.cons_append]
      refine List.nodup_append.mpr ⟨ih, List.nodup_singleton _, ?_⟩
      rintro node earlier last member rfl
      obtain rfl := List.mem_singleton.mp member
      exact acyclic node (path.reaches node earlier)

theorem BlamePath.length_lt (wellFormed : graph.WellFormed) (acyclic : graph.Acyclic)
    {source place : Nat} {blamed : Location} {inner : List Nat}
    (path : graph.BlamePath classes source blamed inner place) :
    inner.length < graph.size := by
  have inside : source :: inner ⊆ List.range graph.size := by
    intro node member
    obtain ⟨next, flows, -⟩ := Relation.TransGen.head'_iff.mp (path.reaches node member)
    exact List.mem_range.mpr (wellFormed.flows_lt flows).1
  have length := ((path.nodup acyclic).subperm inside).length_le
  rwa [List.length_range, List.length_cons] at length

/-- With more steps than the loop takes, the bounded way back is that of the loop. -/
theorem wayBack_of_walksBack {place steps : Nat} {hops : List Hop}
    (walk : graph.WalksBack classes place hops) (enough : hops.length < steps) :
    graph.wayBack classes steps place = hops := by
  induction walk generalizing steps with
  | lost none =>
      obtain ⟨steps, rfl⟩ := Nat.exists_eq_succ_of_ne_zero (Nat.ne_of_gt enough)
      rw [giver?] at none
      simp [wayBack, none]
  | atSource found present origin =>
      obtain ⟨steps, rfl⟩ := Nat.exists_eq_succ_of_ne_zero (Nat.ne_of_gt enough)
      rw [giver?] at found
      simp [wayBack, found, present, origin]
  | back found present passes walk ih =>
      obtain ⟨steps, rfl⟩ := Nat.exists_eq_succ_of_ne_zero (Nat.ne_zero_of_lt enough)
      rw [giver?] at found
      simp [wayBack, found, present, passes, ih (Nat.lt_of_succ_lt_succ enough)]

theorem BlamePath.livePath_eq (wellFormed : graph.WellFormed) (acyclic : graph.Acyclic)
    {source place : Nat} {blamed : Location} {inner : List Nat}
    (path : graph.BlamePath classes source blamed inner place) :
    graph.livePath classes place = inner.filterMap graph.hop? := by
  have enough : (inner.filterMap graph.hop?).reverse.length < graph.size := by
    rw [List.length_reverse]
    exact (List.length_filterMap_le _ _).trans_lt (path.length_lt wellFormed acyclic)
  rw [FlowGraph.livePath, wayBack_of_walksBack path.walksBack enough, List.reverse_reverse]

/-! ## Violations -/

/-- An operator violates its requirement if it has to see the end of live data without windows. -/
theorem violationAt?_eq_some_iff {place : Nat} {violation : Violation} :
    graph.violationAt? classes place = some violation ↔
      ∃ node provenance, graph.nodes[place]? = some node ∧
        node.kind.requirement = .requiresBounded ∧
        classes.input place = .liveUnbounded provenance ∧
        violation =
          ⟨place, node.name, node.location, provenance, graph.livePath classes place⟩ := by
  rw [violationAt?]
  cases graph.nodes[place]? with
  | none => simp
  | some node =>
      cases required : node.kind.requirement <;> cases arriving : classes.input place <;>
        simp [required, Requirement.admits, TemporalClass.isUnbounded, TemporalClass.provenance?,
          eq_comm]

theorem findViolations?_eq (found : graph.propagate? = some classes) :
    graph.findViolations? = some (graph.violations classes) := by
  rw [findViolations?, found]
  rfl

theorem mem_violations {violation : Violation} :
    violation ∈ graph.violations classes ↔
      ∃ place ∈ classes.order, graph.violationAt? classes place = some violation :=
  List.mem_filterMap

end FlowGraph

theorem Violation.causes_diagnostic (violation : Violation) :
    violation.diagnostic.causes =
      violation.path.map fun hop => ⟨hop.description, some hop.location.span⟩ := by
  have folded : ∀ (hops : List Hop) (diagnostic : Diagnostic),
      (hops.foldl (fun diagnostic hop =>
          diagnostic.withCause hop.description (some hop.location.span)) diagnostic).causes =
        diagnostic.causes ++ hops.map fun hop => ⟨hop.description, some hop.location.span⟩ := by
    intro hops
    induction hops with
    | nil => simp
    | cons hop rest ih =>
        intro diagnostic
        rw [List.foldl_cons, ih]
        simp [Diagnostic.withCause]
  simp [diagnostic, Diagnostic.withHint, folded, Diagnostic.withRelated, Diagnostic.error]

namespace FlowGraph

/--
In a graph without cycles, live data at a node is always backed by a path from the
blamed source, and the path of a violation is the one that its own loop finds.
-/
theorem blame_follows_path {graph : FlowGraph} (wellFormed : graph.WellFormed)
    (acyclic : graph.Acyclic) :
    ∃ classes, graph.propagate? = some classes ∧
      (∀ place < graph.size, ∀ blamed, (classes.input place).provenance? = some blamed →
        ∃ source inner, graph.BlamePath classes source blamed inner place) ∧
      ∀ violation ∈ graph.violations classes,
        classes.input violation.node = .liveUnbounded violation.provenance ∧
        graph.WalksBack classes violation.node violation.path.reverse ∧
        (∃ source inner,
          graph.BlamePath classes source violation.provenance inner violation.node ∧
          violation.path.map some = inner.map graph.hop? ∧
          ∀ options : Hop → OperatorOptions,
            violation.path.foldl
                (fun value hop => hop.transform.apply value (options hop) hop.location)
                (classes.output source) =
              .liveUnbounded violation.provenance) ∧
        violation.diagnostic.causes =
          violation.path.map fun hop => ⟨hop.description, some hop.location.span⟩ := by
  obtain ⟨classes, found⟩ := propagate?_of_acyclic wellFormed acyclic
  have solves := solves_of_propagate? wellFormed found
  refine ⟨classes, found, ?_, ?_⟩
  · intro place bound blamed live
    exact exists_blamePath wellFormed acyclic solves (List.getElem?_eq_getElem bound) live
  · intro violation member
    obtain ⟨place, -, reported⟩ := mem_violations.mp member
    obtain ⟨node, blamed, present, -, input, rfl⟩ := violationAt?_eq_some_iff.mp reported
    obtain ⟨source, inner, path⟩ :=
      exists_blamePath wellFormed acyclic solves present (by rw [input]; rfl)
    have reportedPath := path.livePath_eq wellFormed acyclic
    refine ⟨input, ?_, ⟨source, inner, path, ?_, ?_⟩, Violation.causes_diagnostic _⟩
    · simpa [reportedPath] using path.walksBack
    · simpa [reportedPath] using path.map_hop?
    · intro options
      simpa [reportedPath, input] using path.foldl_apply solves options

/-- A place on the first line of a text. -/
def wordAt (offset : Nat) : Location :=
  ⟨SourceFile.defaultName, ⟨1, offset + 1, offset⟩, ⟨1, offset + 4, offset + 3⟩⟩

/-- A bounded source and a source without end, whose data passes one operator and is merged. -/
def mergedSources : FlowGraph where
  nodes :=
    [⟨"read", .source, {}, wordAt 0⟩, ⟨"read", .source, { toMoment := some .endOfTime }, wordAt 5⟩,
      ⟨"put", .passThrough, {}, wordAt 10⟩, ⟨"merge", .merge, {}, wordAt 15⟩,
      ⟨"sort", .sort, {}, wordAt 20⟩]
  edges := [⟨0, 3⟩, ⟨1, 2⟩, ⟨2, 3⟩, ⟨3, 4⟩]

theorem blame_of_mergedSources :
    mergedSources.WellFormed ∧ mergedSources.Acyclic ∧
      ∃ classes source inner, mergedSources.propagate? = some classes ∧
        mergedSources.BlamePath classes source (wordAt 5) inner 4 := by
  have wellFormed : mergedSources.WellFormed := by decide
  have acyclic : mergedSources.Acyclic := acyclic_of_ascending (by decide)
  obtain ⟨classes, found, backed, -⟩ := blame_follows_path wellFormed acyclic
  have computed : mergedSources.propagate?.map (fun classes => (classes.input 4).provenance?) =
      some (some (wordAt 5)) := by
    decide
  rw [found, Option.map_some, Option.some.injEq] at computed
  obtain ⟨source, inner, path⟩ := backed 4 (by decide) _ computed
  exact ⟨wellFormed, acyclic, classes, source, inner, found, path⟩

end FlowGraph

end Flowgraph
