import Flowgraph.Proofs.Analysis.Blame
import Flowgraph.Proofs.Graph.Wiring

/-!
# Evaluating a program without a graph

A program can be evaluated along its own shape.  A chain hands a list of classes from
stage to stage: an operator combines the list and hands on the one class that it gives
out; a block gives the same list to every branch and hands on all that comes out of
them, branch after branch.

This needs neither places nor edges nor an order of visits.  The classes that are
propagated through the graph of the program are the same ones
(`propagation_is_evaluation`).
-/

namespace Flowgraph

/-- An operator, and the classes of its data before and after it. -/
structure EvaluatedOperator where
  operator : Operator
  input : TemporalClass
  output : TemporalClass

/-- The source to blame if the operator never sees the end of data that it has to see. -/
def EvaluatedOperator.blamed? (evaluated : EvaluatedOperator) : Option Location :=
  match evaluated.operator.kind.requirement, evaluated.input with
  | .requiresBounded, .liveUnbounded provenance => some provenance
  | _, _ => none

/-- The operators of a part of a program with their classes, and the classes that leave it. -/
structure Evaluation where
  operators : List EvaluatedOperator
  results : List TemporalClass

namespace Operator

/-- What an operator gives out when it receives data of a class. -/
def emits (operator : Operator) (source : SourceFile) (input : TemporalClass) : TemporalClass :=
  operator.kind.transform.apply input operator.options (source.location operator.span)

theorem emits_node (operator : Operator) (source : SourceFile) (input : TemporalClass) :
    (operator.node source).emits input = operator.emits source input := rfl

/-- An operator that receives what arrives from several inputs. -/
def evaluate (source : SourceFile) (arriving : List TemporalClass) (operator : Operator) :
    Evaluation :=
  let input := TemporalClass.combine arriving
  let output := operator.emits source input
  ⟨[⟨operator, input, output⟩], [output]⟩

end Operator

namespace Stage

mutual

/-- One stage, with the classes that arrive from the stage before it. -/
def evaluate (source : SourceFile) (arriving : List TemporalClass) : Stage Operator → Evaluation
  | step operator => operator.evaluate source arriving
  | parallel branches _ => evaluateBranches source arriving branches

/-- Stages that follow each other, each with the results of the one before. -/
def evaluateChain (source : SourceFile) (arriving : List TemporalClass) :
    List (Stage Operator) → Evaluation
  | [] => ⟨[], arriving⟩
  | stage :: rest =>
      let first := stage.evaluate source arriving
      let others := evaluateChain source first.results rest
      ⟨first.operators ++ others.operators, others.results⟩

/-- Chains side by side, each with the same classes, and their results one after another. -/
def evaluateBranches (source : SourceFile) (arriving : List TemporalClass) :
    List (Flow Operator) → Evaluation
  | [] => ⟨[], []⟩
  | ⟨stages, _⟩ :: rest =>
      let chain := evaluateChain source arriving stages
      let others := evaluateBranches source arriving rest
      ⟨chain.operators ++ others.operators, chain.results ++ others.results⟩

end

end Stage

/-- A program evaluated along its own shape; nothing arrives at its chains. -/
def evaluateProgram (source : SourceFile) (chains : List (Flow Operator)) : Evaluation :=
  Stage.evaluateBranches source [] chains

/-! ## Classes at places -/

/--
The classes at the places of operators satisfy the equations for a list of edges; the
first operator has the given place, and the others follow it.
-/
def EdgeEquations (source : SourceFile) (input output : Nat → TemporalClass) (edges : List Edge)
    (place : Nat) (operators : List Operator) : Prop :=
  ∀ offset operator, operators[offset]? = some operator →
    input (place + offset) =
        TemporalClass.combine ((sourcesOf edges (place + offset)).map output) ∧
      output (place + offset) = operator.emits source (input (place + offset))

/-- Operators with the classes at their places; the first operator has the given place. -/
def evaluatedFrom (input output : Nat → TemporalClass) (place : Nat) (operators : List Operator) :
    List EvaluatedOperator :=
  (operators.zipIdx place).map fun (operator, place) => ⟨operator, input place, output place⟩

theorem evaluatedFrom_append (input output : Nat → TemporalClass) (place : Nat)
    (first second : List Operator) :
    evaluatedFrom input output place (first ++ second) =
      evaluatedFrom input output place first ++
        evaluatedFrom input output (place + first.length) second := by
  rw [evaluatedFrom, List.zipIdx_append, List.map_append]
  rfl

@[simp]
theorem length_evaluatedFrom (input output : Nat → TemporalClass) (place : Nat)
    (operators : List Operator) :
    (evaluatedFrom input output place operators).length = operators.length := by
  simp [evaluatedFrom]

section

variable {source : SourceFile} {input output : Nat → TemporalClass}

/-- Edges to later places do not matter for the operators of the first part. -/
theorem EdgeEquations.first {left right : List Edge} {place : Nat} {first second : List Operator}
    (equations : EdgeEquations source input output (left ++ right) place (first ++ second))
    (later : ∀ edge ∈ right, place + first.length ≤ edge.target) :
    EdgeEquations source input output left place first := by
  intro offset operator present
  have bound : offset < first.length := (List.getElem?_eq_some_iff.mp present).1
  have whole := equations offset operator (by rw [List.getElem?_append_left bound, present])
  have elsewhere : sourcesOf right (place + offset) = [] := by
    refine sourcesOf_eq_nil fun edge member => ?_
    have above := later edge member
    omega
  rwa [sourcesOf_append, elsewhere, List.append_nil] at whole

/-- Edges to earlier places do not matter for the operators of the second part. -/
theorem EdgeEquations.second {left right : List Edge} {place : Nat} {first second : List Operator}
    (equations : EdgeEquations source input output (left ++ right) place (first ++ second))
    (earlier : ∀ edge ∈ left, edge.target < place + first.length) :
    EdgeEquations source input output right (place + first.length) second := by
  intro offset operator present
  have whole := equations (first.length + offset) operator (by
    rw [List.getElem?_append_right (Nat.le_add_right _ _), Nat.add_sub_cancel_left, present])
  have elsewhere : sourcesOf left (place + (first.length + offset)) = [] := by
    refine sourcesOf_eq_nil fun edge member => ?_
    have below := earlier edge member
    omega
  rwa [sourcesOf_append, elsewhere, List.nil_append, ← Nat.add_assoc] at whole

end

namespace Stage

mutual

/--
If the classes at the places of a wired stage satisfy the equations for its edges, the
evaluation finds these classes, and hands on those at the exits.
-/
theorem evaluate_eq_of_equations {source : SourceFile} {input output : Nat → TemporalClass}
    {place : Nat} {entries : List Nat} (early : ∀ entry ∈ entries, entry < place) :
    (stage : Stage Operator) →
      EdgeEquations source input output (stage.wire source place entries).value.edges place
        stage.steps →
      stage.evaluate source (entries.map output) =
        ⟨evaluatedFrom input output place stage.steps,
          (stage.wire source place entries).value.exits.map output⟩
  | step operator, equations => by
      have equation := equations 0 operator rfl
      simp only [wire, Operator.wire, Checked.value_bind, Checked.value_pure, Nat.add_zero,
        sourcesOf_map] at equation
      simp [evaluate, Operator.evaluate, evaluatedFrom, steps, wire, Operator.wire, equation]
  | parallel branches span, equations => by
      simp only [wire, steps] at equations
      simpa only [evaluate, wire, steps] using
        evaluateBranches_eq_of_equations early branches equations

theorem evaluateChain_eq_of_equations {source : SourceFile} {input output : Nat → TemporalClass}
    {place : Nat} {entries : List Nat} (early : ∀ entry ∈ entries, entry < place) :
    (stages : List (Stage Operator)) →
      EdgeEquations source input output (wireChain source place entries stages).value.edges place
        (chainSteps stages) →
      evaluateChain source (entries.map output) stages =
        ⟨evaluatedFrom input output place (chainSteps stages),
          (wireChain source place entries stages).value.exits.map output⟩
  | [], _ => rfl
  | stage :: rest, equations => by
      have first := between_wire source early stage
      have others := between_wireChain source first.exits rest
      simp only [wireChain, Checked.value_bind, Checked.value_pure, nodes_wire, List.length_map,
        chainSteps, Wiring.followedBy] at equations ⊢
      have firstResult := evaluate_eq_of_equations early stage
        (equations.first fun edge member => (others.targets edge member).1)
      have otherResult := evaluateChain_eq_of_equations first.exits rest
        (equations.second fun edge member => (first.targets edge member).2)
      rw [evaluateChain, firstResult, otherResult, evaluatedFrom_append]

theorem evaluateBranches_eq_of_equations {source : SourceFile}
    {input output : Nat → TemporalClass} {place : Nat} {entries : List Nat}
    (early : ∀ entry ∈ entries, entry < place) :
    (branches : List (Flow Operator)) →
      EdgeEquations source input output (wireBranches source place entries branches).value.edges
        place (branchSteps branches) →
      evaluateBranches source (entries.map output) branches =
        ⟨evaluatedFrom input output place (branchSteps branches),
          (wireBranches source place entries branches).value.exits.map output⟩
  | [], _ => rfl
  | ⟨stages, span⟩ :: rest, equations => by
      have chain := between_wireChain source early stages
      have later : ∀ entry ∈ entries, entry < place + (chainSteps stages).length :=
        fun entry member => (early entry member).trans_le (Nat.le_add_right _ _)
      have others := between_wireBranches source later rest
      simp only [wireBranches, Checked.value_bind, Checked.value_pure, nodes_wireChain,
        List.length_map, branchSteps, Wiring.beside] at equations ⊢
      have chainResult := evaluateChain_eq_of_equations early stages
        (equations.first fun edge member => (others.targets edge member).1)
      have otherResult := evaluateBranches_eq_of_equations later rest
        (equations.second fun edge member => (chain.targets edge member).2)
      rw [evaluateBranches, chainResult, otherResult, evaluatedFrom_append, List.map_append]

end

end Stage

/-! ## The graph of a program -/

/-- Propagated classes are those of the evaluation. -/
theorem evaluateProgram_operators {source : SourceFile} {chains : List (Flow Operator)}
    {classes : TemporalMap}
    (found : (FlowGraph.ofProgram source chains).value.propagate? = some classes) :
    (evaluateProgram source chains).operators =
      evaluatedFrom classes.input classes.output 0 (Stage.branchSteps chains) := by
  have solves :=
    FlowGraph.solves_of_propagate? (FlowGraph.wellFormed_ofProgram source chains) found
  have equations : EdgeEquations source classes.input classes.output
      (Stage.wireBranches source 0 [] chains).value.edges 0 (Stage.branchSteps chains) := by
    intro place operator present
    have node : (FlowGraph.ofProgram source chains).value.nodes[place]? =
        some (operator.node source) := by
      rw [FlowGraph.nodes_ofProgram, List.getElem?_map, present]
      rfl
    have equation := solves place _ node
    rw [FlowGraph.predecessors_eq_sourcesOf, FlowGraph.edges_ofProgram,
      Operator.emits_node] at equation
    simpa only [Nat.zero_add] using equation
  have evaluated := Stage.evaluateBranches_eq_of_equations (by simp) chains equations
  rw [List.map_nil] at evaluated
  rw [evaluateProgram, evaluated]

/-- The classes of a map are those at the places of its graph. -/
theorem TemporalMap.Fits.eq_map_range {graph : FlowGraph} {classes : TemporalMap}
    (fits : classes.Fits graph) :
    classes.inputs = (List.range graph.size).map classes.input ∧
      classes.outputs = (List.range graph.size).map classes.output := by
  constructor
  · refine List.ext_getElem (by simp [fits.1]) fun place bound _ => ?_
    simp [TemporalMap.input, List.getD, bound]
  · refine List.ext_getElem (by simp [fits.2]) fun place bound _ => ?_
    simp [TemporalMap.output, List.getD, bound]

theorem filterMap_zipIdx {α β : Type} (values : List α) (choose : α → Nat → Option β) :
    (values.zipIdx.filterMap fun (value, place) => choose value place) =
      (List.range values.length).filterMap fun place =>
        values[place]?.bind fun value => choose value place := by
  induction values using List.reverseRecOn with
  | nil => rfl
  | append_singleton values last ih =>
      have earlier : ((List.range values.length).filterMap fun place =>
            (values ++ [last])[place]?.bind fun value => choose value place) =
          (List.range values.length).filterMap fun place =>
            values[place]?.bind fun value => choose value place := by
        refine List.filterMap_congr fun place member => ?_
        rw [List.getElem?_append_left (List.mem_range.mp member)]
      rw [List.zipIdx_append, List.filterMap_append, ih, List.length_append, List.length_singleton,
        List.range_succ, List.filterMap_append, earlier]
      cases chosen : choose last values.length <;> simp [chosen]

theorem map_evaluatedFrom_range {α : Type} (input output : Nat → TemporalClass)
    (operators : List Operator) (classAt : Nat → α) (field : EvaluatedOperator → α)
    (agree : ∀ operator place, field ⟨operator, input place, output place⟩ = classAt place) :
    (evaluatedFrom input output 0 operators).map field =
      (List.range operators.length).map classAt := by
  refine List.ext_getElem (by simp) fun place bound _ => ?_
  simp [evaluatedFrom, agree]

/-- A node has a violation exactly if the evaluation blames a source for its operator. -/
theorem violationAt?_ofProgram (source : SourceFile) (chains : List (Flow Operator))
    (classes : TemporalMap) (place : Nat) :
    ((FlowGraph.ofProgram source chains).value.violationAt? classes place).map
        (fun violation => (violation.node, violation.provenance)) =
      (evaluatedFrom classes.input classes.output 0 (Stage.branchSteps chains))[place]?.bind
        fun evaluated => evaluated.blamed?.map fun provenance => (place, provenance) := by
  rw [FlowGraph.violationAt?, FlowGraph.nodes_ofProgram]
  cases present : (Stage.branchSteps chains)[place]? with
  | none => simp [evaluatedFrom, present]
  | some operator =>
      cases required : operator.kind.requirement <;> cases arriving : classes.input place <;>
        simp [evaluatedFrom, present, EvaluatedOperator.blamed?, Operator.node, required, arriving,
          Requirement.admits, TemporalClass.isUnbounded, TemporalClass.provenance?]

/--
The graph of a program has one node for each operator that the evaluation meets.  Its
nodes are visited in this order, the propagated classes are those of the evaluation,
and the violations are at the operators that the evaluation blames a source for.
-/
theorem propagation_is_evaluation (source : SourceFile) (chains : List (Flow Operator)) :
    (FlowGraph.ofProgram source chains).value.nodes =
        (evaluateProgram source chains).operators.map (fun evaluated =>
          evaluated.operator.node source) ∧
      (FlowGraph.ofProgram source chains).value.propagate? =
        some
          { order := List.range (evaluateProgram source chains).operators.length
            inputs := (evaluateProgram source chains).operators.map EvaluatedOperator.input
            outputs := (evaluateProgram source chains).operators.map EvaluatedOperator.output } ∧
      ∃ found, (FlowGraph.ofProgram source chains).value.findViolations? = some found ∧
        found.map (fun violation => (violation.node, violation.provenance)) =
          (evaluateProgram source chains).operators.zipIdx.filterMap fun (evaluated, place) =>
            evaluated.blamed?.map fun provenance => (place, provenance) := by
  obtain ⟨classes, found⟩ := FlowGraph.propagate?_of_acyclic
    (FlowGraph.wellFormed_ofProgram source chains) (FlowGraph.acyclic_ofProgram source chains)
  have operators := evaluateProgram_operators found
  have visited := FlowGraph.order_of_propagate? found
  rw [FlowGraph.order?_ofProgram, Option.some.injEq] at visited
  have fits := (FlowGraph.fits_of_propagate? found).eq_map_range
  rw [FlowGraph.size_ofProgram] at fits
  rw [operators]
  refine ⟨?_, ?_, _, FlowGraph.findViolations?_eq found, ?_⟩
  · rw [FlowGraph.nodes_ofProgram, evaluatedFrom, List.map_map]
    conv_lhs => rw [← List.zipIdx_map_fst 0 (Stage.branchSteps chains), List.map_map]
    rfl
  · rw [found, length_evaluatedFrom]
    rw [map_evaluatedFrom_range _ _ _ classes.input _ fun _ _ => rfl,
      map_evaluatedFrom_range _ _ _ classes.output _ fun _ _ => rfl, ← fits.1, ← fits.2, visited]
  · rw [FlowGraph.violations, ← visited, List.map_filterMap]
    calc
      _ = (List.range (Stage.branchSteps chains).length).filterMap fun place =>
            (evaluatedFrom classes.input classes.output 0 (Stage.branchSteps chains))[place]?.bind
              fun evaluated => evaluated.blamed?.map fun provenance => (place, provenance) :=
          List.filterMap_congr fun place _ => violationAt?_ofProgram source chains classes place
      _ = _ := by
          rw [← length_evaluatedFrom classes.input classes.output 0 (Stage.branchSteps chains)]
          exact (filterMap_zipIdx _ fun (evaluated : EvaluatedOperator) place =>
            evaluated.blamed?.map fun provenance => (place, provenance)).symm

end Flowgraph
