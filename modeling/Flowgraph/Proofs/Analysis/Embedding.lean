import Flowgraph.Proofs.Analysis.Blame
import Flowgraph.Proofs.Analysis.Merging
import Flowgraph.Proofs.Graph.Relocation

/-!
# Graphs within graphs

A graph stands in another one if its nodes are there again, numbered from some number on
and maybe read elsewhere, and if no other edges lead to them (`FlowGraph.StandsIn`).

The analysis then comes to the same result on both.  Equal classes are equal in their
locations as well, so the nodes are not compared by what they give out, but by how
dangerous it is: this alone decides which input is selected where several meet.  A path
along which a class is handed on is therefore found again (`StandsIn.blamePath`), and with
it the source that is to blame.
-/

namespace Flowgraph

namespace TemporalClass

theorem exists_of_rank_eq_two {value : TemporalClass} (rank : value.rank = 2) :
    ∃ provenance, value = .liveUnbounded provenance := by
  cases value with
  | liveUnbounded provenance => exact ⟨provenance, rfl⟩
  | _ => cases rank

end TemporalClass

theorem Node.content_eq_iff {node other : Node} :
    other.content = node.content ↔
      other.name = node.name ∧ other.kind = node.kind ∧ other.options = node.options := by
  simp [content]

/-- Nodes that do the same keep equally dangerous data equally dangerous. -/
theorem Node.rank_emits_congr {node other : Node} (same : other.content = node.content)
    {input otherInput : TemporalClass} (rank : otherInput.rank = input.rank) :
    (other.emits otherInput).rank = (node.emits input).rank := by
  obtain ⟨-, kind, options⟩ := Node.content_eq_iff.mp same
  simp only [emits, kind, options]
  by_cases origin : node.kind.transform = .origin
  · simp only [origin, Transform.apply]
    cases node.options.upperBound <;> cases node.options.isWindowed <;> rfl
  · rw [Transform.apply_congr origin otherInput node.options node.options other.location
      node.location]
    exact le_antisymm (Transform.rank_apply_mono origin rank.le _ _)
      (Transform.rank_apply_mono origin rank.ge _ _)

/-- The first of the greatest values is only one. -/
theorem eq_of_selected (weight : Nat → Nat) {values before after others later : List Nat}
    {first second : Nat} (split : values = before ++ first :: after)
    (less : ∀ value ∈ before, weight value < weight first)
    (atMost : ∀ value ∈ after, weight value ≤ weight first)
    (splitOther : values = others ++ second :: later)
    (lessOther : ∀ value ∈ others, weight value < weight second)
    (atMostOther : ∀ value ∈ later, weight value ≤ weight second) : first = second := by
  rw [split] at splitOther
  rcases List.append_eq_append_iff.mp splitOther with ⟨middle, rfl, rest⟩ | ⟨middle, rfl, rest⟩
  · cases middle with
    | nil => exact (List.cons.inj rest).1
    | cons value middle =>
        obtain ⟨rfl, rfl⟩ := List.cons.inj rest
        have above := lessOther first (by simp)
        have below := atMost second (by simp)
        omega
  · cases middle with
    | nil => exact (List.cons.inj rest).1.symm
    | cons value middle =>
        obtain ⟨rfl, rfl⟩ := List.cons.inj rest
        have above := less second (by simp)
        have below := atMostOther first (by simp)
        omega

namespace FlowGraph

/-- The nodes of a graph are nodes of another one, with higher numbers and the same inputs. -/
structure StandsIn (part whole : FlowGraph) (number : Nat) : Prop where
  nodes : ∀ place < part.size,
    whole.nodes[place + number]?.map Node.content = part.nodes[place]?.map Node.content
  predecessors : ∀ place < part.size,
    whole.predecessors (place + number) = (part.predecessors place).map (· + number)

variable {part whole : FlowGraph} {number : Nat} {classes classesWhole : TemporalMap}

/-- Operators have the same names in the whole graph. -/
theorem StandsIn.map_name_hops (standsIn : part.StandsIn whole number) {places : List Nat}
    (bound : ∀ place ∈ places, place < part.size) :
    ((places.map (· + number)).filterMap whole.hop?).map Hop.name =
      (places.filterMap part.hop?).map Hop.name := by
  rw [List.filterMap_map, List.map_filterMap, List.map_filterMap]
  refine List.filterMap_congr fun place member => ?_
  have content := congrArg (Option.map Prod.fst) (standsIn.nodes place (bound place member))
  simpa [hop?, Option.map_map, Function.comp_def, Node.content] using content

theorem StandsIn.exists_node (standsIn : part.StandsIn whole number) {place : Nat} {node : Node}
    (present : part.nodes[place]? = some node) :
    ∃ other, whole.nodes[place + number]? = some other ∧ other.content = node.content := by
  have content := standsIn.nodes place (List.getElem?_eq_some_iff.mp present).1
  rwa [present, Option.map_some, Option.map_eq_some_iff] at content

/-- The source of live data: a node that is one, at the location that the class carries. -/
def Blames (graph : FlowGraph) (value : TemporalClass) (source : Nat) : Prop :=
  ∃ node, graph.nodes[source]? = some node ∧ node.kind = .source ∧
    value.provenance? = some node.location

/-- A violation of a part of a graph, found again in the whole graph. -/
structure RecursIn (part whole : FlowGraph) (number : Nat) (violation other : Violation) :
    Prop where
  node : other.node = violation.node + number
  operatorName : other.operatorName = violation.operatorName
  names : other.path.map Hop.name = violation.path.map Hop.name
  blamed : ∃ source node sourceOther, Relation.TransGen part.Flows source violation.node ∧
    part.nodes[source]? = some node ∧ violation.provenance = node.location ∧
    whole.nodes[source + number]? = some sourceOther ∧ other.provenance = sourceOther.location

theorem RecursIn.message {violation other : Violation}
    (recurs : part.RecursIn whole number violation other) :
    other.message = violation.message := by
  unfold Violation.message
  rw [recurs.operatorName]

theorem BlamePath.blames (solves : classes.Solves part) {source place : Nat} {blamed : Location}
    {inner : List Nat} (path : part.BlamePath classes source blamed inner place) :
    part.Blames (classes.input place) source := by
  obtain ⟨node, present, isSource, rfl⟩ := path.exists_source
  exact ⟨node, present, isSource, path.provenance? solves⟩

namespace StandsIn

variable (standsIn : part.StandsIn whole number) (analyzed : part.Analyzed classes)
  (analyzedWhole : whole.Analyzed classesWhole)

include standsIn analyzed analyzedWhole

/-- What reaches a node, and what it gives out, is as dangerous in the whole graph. -/
theorem rank_eq {place : Nat} {node : Node} (present : part.nodes[place]? = some node) :
    (classesWhole.input (place + number)).rank = (classes.input place).rank ∧
      (classesWhole.output (place + number)).rank = (classes.output place).rank := by
  induction place using (analyzed.acyclic.wellFounded analyzed.wellFormed).induction
    generalizing node with
  | _ place ih =>
      obtain ⟨other, presentWhole, content⟩ := standsIn.exists_node present
      have equations := analyzed.solves place node present
      have equationsWhole := analyzedWhole.solves _ other presentWhole
      have given : ((whole.predecessors (place + number)).map classesWhole.output).map
            TemporalClass.rank =
          ((part.predecessors place).map classes.output).map TemporalClass.rank := by
        rw [standsIn.predecessors place (List.getElem?_eq_some_iff.mp present).1]
        simp only [List.map_map]
        refine List.map_congr_left fun giver member => ?_
        have flows := mem_predecessors.mp member
        obtain ⟨giverNode, giverPresent⟩ := (analyzed.wellFormed.exists_node flows).1
        exact (ih giver flows giverPresent).2
      have input : (classesWhole.input (place + number)).rank = (classes.input place).rank := by
        rw [equations.1, equationsWhole.1, TemporalClass.rank_combine, TemporalClass.rank_combine,
          given]
      refine ⟨input, ?_⟩
      rw [equations.2, equationsWhole.2]
      exact Node.rank_emits_congr content input

theorem live_iff {place : Nat} {node : Node} (present : part.nodes[place]? = some node) :
    (classesWhole.input (place + number)).provenance? = none ↔
      (classes.input place).provenance? = none := by
  rw [TemporalClass.provenance?_eq_none_iff, TemporalClass.provenance?_eq_none_iff,
    (standsIn.rank_eq analyzed analyzedWhole present).1]

/-- Live data is handed on along the same edges. -/
theorem handsOn {first second : Nat} (step : part.HandsOn classes first second)
    (live : (classes.input second).provenance? ≠ none) :
    whole.HandsOn classesWhole (first + number) (second + number) := by
  obtain ⟨node, present⟩ := (analyzed.wellFormed.exists_node step.flows).2
  obtain ⟨other, presentWhole, -⟩ := standsIn.exists_node present
  obtain ⟨giver, found⟩ := exists_handsOn analyzedWhole.solves presentWhole
    (mt (standsIn.live_iff analyzed analyzedWhole present).mp live)
  obtain ⟨before, after, split, less, atMost⟩ := step.isSelected
  obtain ⟨others, later, splitWhole, lessWhole, atMostWhole⟩ := found.isSelected
  have bound := (analyzed.wellFormed.flows_lt step.flows).2
  rw [standsIn.predecessors second bound, split, List.map_append, List.map_cons] at splitWhole
  have rank : ∀ place ∈ part.predecessors second,
      (classesWhole.output (place + number)).rank = (classes.output place).rank := by
    intro place member
    obtain ⟨giverNode, giverPresent⟩ :=
      (analyzed.wellFormed.exists_node (mem_predecessors.mp member)).1
    exact (standsIn.rank_eq analyzed analyzedWhole giverPresent).2
  have selected : first + number = giver := by
    refine eq_of_selected (fun place => (classesWhole.output place).rank) rfl ?_ ?_
      splitWhole lessWhole atMostWhole
    · intro value member
      obtain ⟨place, earlier, rfl⟩ := List.mem_map.mp member
      rw [rank place (by simp [split, earlier]), rank first (by simp [split])]
      exact less place earlier
    · intro value member
      obtain ⟨place, isLater, rfl⟩ := List.mem_map.mp member
      rw [rank place (by simp [split, isLater]), rank first (by simp [split])]
      exact atMost place isLater
  exact selected ▸ found

/-- A path along which live data is handed on is found again. -/
theorem blamePath {source place : Nat} {blamed : Location} {inner : List Nat}
    (path : part.BlamePath classes source blamed inner place) :
    ∃ other, whole.nodes[source + number]? = some other ∧
      whole.BlamePath classesWhole (source + number) other.location (inner.map (· + number))
        (place + number) := by
  have live := path.provenance? analyzed.solves
  induction path with
  | direct present isSource unending location step =>
      obtain ⟨other, presentWhole, content⟩ := standsIn.exists_node present
      obtain ⟨-, kind, options⟩ := Node.content_eq_iff.mp content
      refine ⟨other, presentWhole, .direct presentWhole (kind.trans isSource) ?_ rfl ?_⟩
      · rw [options, unending]
      · exact standsIn.handsOn analyzed analyzedWhole step (by simp [live])
  | through path present passes step ih =>
      obtain ⟨source, sourcePresent, found⟩ := ih (path.provenance? analyzed.solves)
      obtain ⟨other, presentWhole, content⟩ := standsIn.exists_node present
      obtain ⟨-, kind, -⟩ := Node.content_eq_iff.mp content
      refine ⟨source, sourcePresent, ?_⟩
      rw [List.map_append]
      refine .through found presentWhole (fun isSource => passes (kind.symm.trans isSource)) ?_
      exact standsIn.handsOn analyzed analyzedWhole step (by simp [live])

/-- The blamed source of what reaches a node is found again. -/
theorem exists_blames_input {place : Nat} {node : Node} (present : part.nodes[place]? = some node)
    (live : (classes.input place).provenance? ≠ none) :
    ∃ source, part.Blames (classes.input place) source ∧
      whole.Blames (classesWhole.input (place + number)) (source + number) := by
  obtain ⟨blamed, provenance⟩ := Option.ne_none_iff_exists'.mp live
  obtain ⟨source, inner, path⟩ :=
    exists_blamePath analyzed.wellFormed analyzed.acyclic analyzed.solves present provenance
  obtain ⟨other, -, pathWhole⟩ := standsIn.blamePath analyzed analyzedWhole path
  exact ⟨source, path.blames analyzed.solves, pathWhole.blames analyzedWhole.solves⟩

/-- The blamed source of what a node gives out is found again. -/
theorem exists_blames_output {place : Nat} {node : Node}
    (present : part.nodes[place]? = some node)
    (live : (classes.output place).provenance? ≠ none) :
    ∃ source, part.Blames (classes.output place) source ∧
      whole.Blames (classesWhole.output (place + number)) (source + number) := by
  obtain ⟨other, presentWhole, content⟩ := standsIn.exists_node present
  obtain ⟨-, kind, options⟩ := Node.content_eq_iff.mp content
  have output := (analyzed.solves place node present).2
  have outputWhole := (analyzedWhole.solves _ other presentWhole).2
  by_cases isSource : node.kind = .source
  · cases bound : node.options.upperBound with
    | fixed => exact absurd (by rw [output, node.emits_of_fixed isSource bound]; rfl) live
    | unending =>
        rw [node.emits_of_source isSource bound] at output
        rw [other.emits_of_source (kind.trans isSource) (options ▸ bound)] at outputWhole
        exact ⟨place,
          ⟨node, present, isSource, by rw [output, node.provenance?_liveClass]⟩,
          ⟨other, presentWhole, kind.trans isSource,
            by rw [outputWhole, other.provenance?_liveClass]⟩⟩
  · have passes := Node.transform_ne_origin isSource
    have same : (classes.output place).provenance? = (classes.input place).provenance? := by
      rw [output]
      exact Transform.provenance?_apply passes _ _ _
    have sameWhole : (classesWhole.output (place + number)).provenance? =
        (classesWhole.input (place + number)).provenance? := by
      rw [outputWhole]
      exact Transform.provenance?_apply (kind ▸ passes) _ _ _
    rw [same] at live
    obtain ⟨source, blames, blamesWhole⟩ :=
      standsIn.exists_blames_input analyzed analyzedWhole present live
    rw [Blames, ← same] at blames
    rw [Blames, ← sameWhole] at blamesWhole
    exact ⟨source, blames, blamesWhole⟩

/-! ## Violations -/

/-- A node of the part violates its requirement exactly if it does so in the whole graph. -/
theorem violationAt? {place : Nat} (bound : place < part.size) :
    Option.Rel (part.RecursIn whole number) (part.violationAt? classes place)
      (whole.violationAt? classesWhole (place + number)) := by
  have present := List.getElem?_eq_getElem bound
  obtain ⟨other, presentWhole, content⟩ := standsIn.exists_node present
  obtain ⟨name, kind, -⟩ := Node.content_eq_iff.mp content
  have rank := (standsIn.rank_eq analyzed analyzedWhole present).1
  cases found : part.violationAt? classes place with
  | none =>
      have none : whole.violationAt? classesWhole (place + number) = none := by
        refine Option.eq_none_iff_forall_ne_some.mpr fun violation foundWhole => ?_
        obtain ⟨_, blamed, sameNode, required, arriving, -⟩ :=
          violationAt?_eq_some_iff.mp foundWhole
        obtain rfl := Option.some.inj (presentWhole.symm.trans sameNode)
        rw [arriving] at rank
        obtain ⟨provenance, input⟩ := TemporalClass.exists_of_rank_eq_two rank.symm
        have reported := violationAt?_eq_some_iff.mpr
          ⟨_, provenance, present, kind ▸ required, input, rfl⟩
        rw [found] at reported
        cases reported
      rw [none]
      exact .none
  | some violation =>
      obtain ⟨_, blamed, sameNode, required, arriving, rfl⟩ := violationAt?_eq_some_iff.mp found
      obtain rfl := Option.some.inj (present.symm.trans sameNode)
      rw [arriving] at rank
      obtain ⟨provenance, input⟩ := TemporalClass.exists_of_rank_eq_two rank
      rw [violationAt?_eq_some_iff.mpr
        ⟨_, provenance, presentWhole, kind ▸ required, input, rfl⟩]
      obtain ⟨source, inner, path⟩ := exists_blamePath analyzed.wellFormed analyzed.acyclic
        analyzed.solves present (by rw [arriving]; rfl)
      obtain ⟨sourceOther, sourcePresent, pathWhole⟩ :=
        standsIn.blamePath analyzed analyzedWhole path
      obtain ⟨sourceNode, isPresent, -, rfl⟩ := path.exists_source
      have provenanceWhole := pathWhole.provenance? analyzedWhole.solves
      rw [input] at provenanceWhole
      refine .some ⟨rfl, name, ?_, source, sourceNode, sourceOther,
        path.reaches source (List.mem_cons_self ..), isPresent, rfl, sourcePresent,
        Option.some.inj provenanceWhole⟩
      rw [path.livePath_eq analyzed.wellFormed analyzed.acyclic,
        pathWhole.livePath_eq analyzedWhole.wellFormed analyzedWhole.acyclic]
      refine standsIn.map_name_hops fun hop member => ?_
      obtain ⟨next, flows, -⟩ :=
        Relation.TransGen.head'_iff.mp (path.reaches hop (List.mem_cons_of_mem _ member))
      exact (analyzed.wellFormed.flows_lt flows).1

/-- The violations at some nodes of the part are found again in the same order. -/
theorem forall₂_violations (places : List Nat) (bound : ∀ place ∈ places, place < part.size) :
    List.Forall₂ (part.RecursIn whole number) (places.filterMap (part.violationAt? classes))
      ((places.map (· + number)).filterMap (whole.violationAt? classesWhole)) := by
  induction places with
  | nil => exact .nil
  | cons place rest ih =>
      have later := ih fun place member => bound place (List.mem_cons_of_mem _ member)
      have found :=
        standsIn.violationAt? analyzed analyzedWhole (bound place (List.mem_cons_self ..))
      rw [List.map_cons, List.filterMap_cons, List.filterMap_cons]
      generalize part.violationAt? classes place = first at found ⊢
      generalize whole.violationAt? classesWhole (place + number) = second at found ⊢
      cases found with
      | none => exact later
      | some recurs => exact .cons recurs later

end StandsIn

/-! ## Graphs side by side -/

theorem sourcesOf_map_shift (edges : List Edge) (number target : Nat) :
    sourcesOf (edges.map (Edge.shift number)) (target + number) =
      (sourcesOf edges target).map (· + number) := by
  rw [sourcesOf, sourcesOf, List.filterMap_map, List.map_filterMap]
  refine List.filterMap_congr fun edge _ => ?_
  by_cases meets : edge.target = target <;> simp [Edge.shift, meets]

/-- Both parts of a graph of two parts stand in it, the second after the first. -/
theorem standsIn_of_append {first second : FlowGraph} (wellFormed : first.WellFormed)
    (content : whole.nodes.map Node.content =
      first.nodes.map Node.content ++ second.nodes.map Node.content)
    (edges : whole.edges = first.edges ++ second.edges.map (Edge.shift first.size)) :
    first.StandsIn whole 0 ∧ second.StandsIn whole first.size := by
  have nodes : ∀ place : Nat, whole.nodes[place]?.map Node.content =
      (first.nodes.map Node.content ++ second.nodes.map Node.content)[place]? := by
    intro place
    rw [← content, List.getElem?_map]
  constructor
  · constructor
    · intro place bound
      rw [Nat.add_zero, nodes, List.getElem?_append_left (by simpa [size] using bound),
        List.getElem?_map]
    · intro place bound
      have elsewhere : sourcesOf (second.edges.map (Edge.shift first.size)) place = [] := by
        refine sourcesOf_eq_nil fun edge member => ?_
        obtain ⟨original, -, rfl⟩ := List.mem_map.mp member
        simp only [Edge.shift]
        omega
      simp [predecessors_eq_sourcesOf, edges, elsewhere]
  · constructor
    · intro place _
      rw [nodes, List.getElem?_append_right (by simp [size]), List.getElem?_map, List.length_map]
      simp [size]
    · intro place _
      have elsewhere : sourcesOf first.edges (place + first.size) = [] := by
        refine sourcesOf_eq_nil fun edge member => ?_
        have bound := (wellFormed edge member).2
        omega
      rw [predecessors_eq_sourcesOf, edges, sourcesOf_append, elsewhere, List.nil_append,
        sourcesOf_map_shift]
      rfl

/--
The violations of a graph of two parts: those of the first one, found again, and then those
of the second one.
-/
theorem exists_violations_append {first second : FlowGraph} {classesLater : TemporalMap}
    (analyzed : first.Analyzed classes) (analyzedLater : second.Analyzed classesLater)
    (analyzedWhole : whole.Analyzed classesWhole)
    (content : whole.nodes.map Node.content =
      first.nodes.map Node.content ++ second.nodes.map Node.content)
    (edges : whole.edges = first.edges ++ second.edges.map (Edge.shift first.size))
    (order : classesWhole.order = classes.order ++ classesLater.order.map (· + first.size)) :
    ∃ earlier afterwards, whole.violations classesWhole = earlier ++ afterwards ∧
      List.Forall₂ (first.RecursIn whole 0) (first.violations classes) earlier ∧
      List.Forall₂ (second.RecursIn whole first.size) (second.violations classesLater)
        afterwards := by
  obtain ⟨isFirst, isSecond⟩ := standsIn_of_append analyzed.wellFormed content edges
  refine ⟨_, _, ?_,
    isFirst.forall₂_violations analyzed analyzedWhole classes.order fun _ => analyzed.lt_size,
    isSecond.forall₂_violations analyzedLater analyzedWhole classesLater.order
      fun _ => analyzedLater.lt_size⟩
  rw [violations, order, List.filterMap_append]
  congr 2
  exact (List.map_id _).symm

end FlowGraph

end Flowgraph
