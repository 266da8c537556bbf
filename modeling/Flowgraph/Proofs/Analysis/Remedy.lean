import Flowgraph.Compile.Run
import Flowgraph.Proofs.Analysis.Embedding
import Flowgraph.Proofs.Analysis.Evaluation
import Flowgraph.Proofs.Analysis.RunawayCheck

/-!
# Windows before an operator

A violation comes with a remedy: to window the data right before the operator that would
wait for its end.  The remedy works and does no harm (`remedy_works`).  The operator gets its
data in windows then, and no other operator gets more dangerous data than before.

An added operator moves all that follow it in the graph and takes over the edges to the
operator that it stands before.  So the proof goes along the shape of the program: inductions
over chains and blocks show that a program with windows added is wired without errors, and
that what arrives at its operators is at most as dangerous.
-/

namespace Flowgraph

/-! ## Adding operators -/

namespace Stage

section Adding

variable (added : Nat → Option Operator)

mutual

/--
A stage with more operators: what is added at the place of an operator becomes a stage of its
own right before it.  The first operator of the stage has the given place.
-/
def addTo (place : Nat) : Stage Operator → List (Stage Operator)
  | step operator => (added place).toList.map step ++ [step operator]
  | parallel branches span => [parallel (addToBranches place branches) span]

/-- Stages that follow each other, with more operators among them. -/
def addToChain (place : Nat) : List (Stage Operator) → List (Stage Operator)
  | [] => []
  | stage :: rest => stage.addTo place ++ addToChain (place + stage.steps.length) rest

/-- Chains side by side, with more operators in them. -/
def addToBranches (place : Nat) : List (Flow Operator) → List (Flow Operator)
  | [] => []
  | ⟨stages, span⟩ :: rest =>
      ⟨addToChain place stages, span⟩ ::
        addToBranches (place + (chainSteps stages).length) rest

end

/-- Operators with what is added right before each of them. -/
def addToSteps (place : Nat) : List Operator → List Operator
  | [] => []
  | operator :: rest => (added place).toList ++ operator :: addToSteps (place + 1) rest

theorem addToSteps_append (place : Nat) (first second : List Operator) :
    addToSteps added place (first ++ second) =
      addToSteps added place first ++ addToSteps added (place + first.length) second := by
  induction first generalizing place with
  | nil => rfl
  | cons operator rest ih =>
      rw [List.cons_append, addToSteps, ih (place + 1), addToSteps, List.length_cons,
        List.append_assoc, List.cons_append, Nat.add_assoc, Nat.add_comm 1]

mutual

theorem steps_addTo (place : Nat) (stage : Stage Operator) :
    chainSteps (stage.addTo added place) = addToSteps added place stage.steps := by
  cases stage with
  | step operator =>
      cases given : added place <;> simp [addTo, addToSteps, chainSteps, steps, given]
  | parallel branches span =>
      rw [addTo, chainSteps, chainSteps, steps, steps, List.append_nil]
      exact steps_addToBranches place branches

theorem steps_addToChain (place : Nat) (stages : List (Stage Operator)) :
    chainSteps (addToChain added place stages) = addToSteps added place (chainSteps stages) := by
  cases stages with
  | nil => rfl
  | cons stage rest =>
      rw [addToChain, chainSteps_append, steps_addTo place stage, steps_addToChain _ rest,
        chainSteps, addToSteps_append]

/-- The operators of a program are still in the same order. -/
theorem steps_addToBranches (place : Nat) (branches : List (Flow Operator)) :
    branchSteps (addToBranches added place branches) =
      addToSteps added place (branchSteps branches) := by
  cases branches with
  | nil => rfl
  | cons flow rest =>
      obtain ⟨stages, span⟩ := flow
      rw [addToBranches, branchSteps, branchSteps, steps_addToChain place stages,
        steps_addToBranches _ rest, addToSteps_append]

end

end Adding

/-! ## Wiring with more operators -/

theorem wireChain_append (source : SourceFile) (place : Nat) (entries : List Nat)
    (first second : List (Stage Operator)) :
    let front := wireChain source place entries first
    let others := wireChain source (place + (chainSteps first).length) front.value.exits second
    (wireChain source place entries (first ++ second)).value =
        front.value.followedBy others.value ∧
      (wireChain source place entries (first ++ second)).diagnostics =
        front.diagnostics ++ others.diagnostics := by
  induction first generalizing place entries with
  | nil => exact ⟨rfl, rfl⟩
  | cons stage rest ih =>
      have places : place + (chainSteps (stage :: rest)).length =
          place + stage.steps.length + (chainSteps rest).length := by
        rw [chainSteps, List.length_append, Nat.add_assoc]
      simp only [List.cons_append, wireChain, Checked.value_bind, Checked.value_pure,
        Checked.diagnostics_bind, Checked.diagnostics_pure, nodes_wire, List.length_map, ih,
        places, Wiring.followedBy, List.append_assoc, List.append_nil, and_self]

end Stage

/-- Whether an operator may have inputs depends on whether it has any. -/
theorem Operator.checkInputs_congr (operator : Operator) {entries others : List Nat}
    (same : others = [] ↔ entries = []) :
    operator.checkInputs others = operator.checkInputs entries := by
  have isEmpty : others.isEmpty = entries.isEmpty :=
    Bool.eq_iff_iff.mpr (by rw [List.isEmpty_iff, List.isEmpty_iff, same])
  rw [checkInputs, checkInputs, isEmpty]

theorem Operator.checkInputs_eq_nil {operator : Operator} (passes : operator.kind ≠ .source)
    {entries : List Nat} :
    (operator.checkInputs entries).diagnostics = [] ↔ entries ≠ [] := by
  have notSource : operator.kind.isSource = false := by
    simpa [OperatorKind.isSource] using passes
  rw [checkInputs, notSource]
  cases entries <;> simp [Checked.error]

/-- Nothing is added before a source; the first operator has the given place. -/
def SparesSources (added : Nat → Option Operator) (place : Nat) (operators : List Operator) :
    Prop :=
  ∀ offset operator, operators[offset]? = some operator → added (place + offset) ≠ none →
    operator.kind ≠ .source

/-- All that is added windows its data. -/
def AddsWindows (added : Nat → Option Operator) : Prop :=
  ∀ place operator, added place = some operator → operator.kind = .windowedAggregate

section Accepted

variable {added : Nat → Option Operator}

/-- What holds of a program's operators holds of those of its parts. -/
theorem SparesSources.parts {place : Nat} {first second : List Operator}
    (spares : SparesSources added place (first ++ second)) :
    SparesSources added place first ∧ SparesSources added (place + first.length) second := by
  constructor
  · intro offset operator present
    have bound := (List.getElem?_eq_some_iff.mp present).1
    exact spares offset operator (by rw [List.getElem?_append_left bound, present])
  · intro offset operator present
    rw [Nat.add_assoc]
    apply spares
    rw [List.getElem?_append_right (Nat.le_add_right _ _), Nat.add_sub_cancel_left, present]

namespace Stage

/-- An operator with windows before it has the same exits, and no errors if it had none. -/
theorem wire_addTo_step (windows : AddsWindows added) (source : SourceFile) (second : Nat)
    {place first : Nat} {entries others : List Nat} (same : others = [] ↔ entries = [])
    {operator : Operator}
    (spares : SparesSources added place [operator])
    (accepted : (operator.wire source first entries).diagnostics = []) :
    (wireChain source second others ((step operator).addTo added place)).diagnostics = [] ∧
      (wireChain source second others ((step operator).addTo added place)).value.exits ≠ [] := by
  simp only [Operator.wire, Checked.diagnostics_bind, Checked.diagnostics_pure,
    List.append_nil] at accepted
  cases given : added place with
  | none =>
      simp [addTo, given, wireChain, wire, Operator.wire, Wiring.followedBy, Wiring.through,
        operator.checkInputs_congr same, accepted]
  | some window =>
      have passes : operator.kind ≠ .source := spares 0 operator rfl (by simp [given])
      have windowPasses : window.kind ≠ .source := by
        rw [windows place window given]
        decide
      -- The operator had inputs.  They lead to the window now, and the window to the operator.
      rw [Operator.checkInputs_eq_nil passes, Ne, ← same, ← Ne,
        ← Operator.checkInputs_eq_nil windowPasses] at accepted
      have acceptedLater : (operator.checkInputs [second]).diagnostics = [] :=
        (Operator.checkInputs_eq_nil passes).mpr (List.cons_ne_nil _ _)
      simp [addTo, given, wireChain, wire, Operator.wire, Wiring.followedBy, Wiring.through,
        accepted, acceptedLater]

mutual

theorem wire_addTo (windows : AddsWindows added) (source : SourceFile) (second : Nat)
    {place first : Nat} {entries others : List Nat} (same : others = [] ↔ entries = [])
    {stage : Stage Operator}
    (spares : SparesSources added place stage.steps)
    (accepted : (stage.wire source first entries).diagnostics = []) :
    (wireChain source second others (stage.addTo added place)).diagnostics = [] ∧
      ((wireChain source second others (stage.addTo added place)).value.exits = [] ↔
        (stage.wire source first entries).value.exits = []) := by
  cases stage with
  | step operator =>
      obtain ⟨noErrors, exits⟩ := wire_addTo_step windows source second same spares accepted
      exact ⟨noErrors, iff_of_false exits (List.cons_ne_nil first [])⟩
  | parallel branches span =>
      have block := wireBranches_addTo windows source second same spares accepted
      simpa [addTo, wireChain, wire, Wiring.followedBy, Wiring.through] using block

theorem wireChain_addTo (windows : AddsWindows added) (source : SourceFile) (second : Nat)
    {place first : Nat} {entries others : List Nat} (same : others = [] ↔ entries = [])
    {stages : List (Stage Operator)}
    (spares : SparesSources added place (chainSteps stages))
    (accepted : (wireChain source first entries stages).diagnostics = []) :
    (wireChain source second others (addToChain added place stages)).diagnostics = [] ∧
      ((wireChain source second others (addToChain added place stages)).value.exits = [] ↔
        (wireChain source first entries stages).value.exits = []) := by
  cases stages with
  | nil => exact ⟨rfl, same⟩
  | cons stage rest =>
      obtain ⟨sparesStage, sparesRest⟩ := spares.parts
      simp only [wireChain, Checked.diagnostics_bind, Checked.diagnostics_pure,
        List.append_nil, List.append_eq_nil_iff] at accepted
      obtain ⟨front, exits⟩ := wire_addTo windows source second same sparesStage accepted.1
      obtain ⟨value, diagnostics⟩ := wireChain_append source second others
        (stage.addTo added place) (addToChain added (place + stage.steps.length) rest)
      obtain ⟨later, lastExits⟩ := wireChain_addTo windows source _ exits sparesRest accepted.2
      rw [addToChain, value, diagnostics, front]
      exact ⟨later, lastExits⟩

/-- A program with windows added to it has no errors of its wiring if it had none before. -/
theorem wireBranches_addTo (windows : AddsWindows added) (source : SourceFile) (second : Nat)
    {place first : Nat} {entries others : List Nat} (same : others = [] ↔ entries = [])
    {branches : List (Flow Operator)}
    (spares : SparesSources added place (branchSteps branches))
    (accepted : (wireBranches source first entries branches).diagnostics = []) :
    (wireBranches source second others (addToBranches added place branches)).diagnostics = [] ∧
      ((wireBranches source second others (addToBranches added place branches)).value.exits = [] ↔
        (wireBranches source first entries branches).value.exits = []) := by
  cases branches with
  | nil => exact ⟨rfl, Iff.rfl⟩
  | cons flow rest =>
      obtain ⟨stages, span⟩ := flow
      obtain ⟨sparesChain, sparesRest⟩ := spares.parts
      simp only [wireBranches, Checked.diagnostics_bind, Checked.diagnostics_pure,
        List.append_nil, List.append_eq_nil_iff] at accepted
      obtain ⟨chain, chainExits⟩ :=
        wireChain_addTo windows source second same sparesChain accepted.1
      simp only [addToBranches, wireBranches, Checked.diagnostics_bind,
        Checked.diagnostics_pure, Checked.value_bind, Checked.value_pure, Wiring.beside,
        List.append_nil, List.append_eq_nil_iff, chain, chainExits, true_and]
      obtain ⟨later, laterExits⟩ := wireBranches_addTo windows source _ same sparesRest accepted.2
      exact ⟨later, and_congr_right fun _ => laterExits⟩

end

end Stage

end Accepted

/-! ## Evaluating with more operators -/

/-- An operator never gives out more dangerous data for less dangerous data. -/
theorem Operator.rank_emits_mono (operator : Operator) (source : SourceFile)
    {less more : TemporalClass} (atMost : less.rank ≤ more.rank) :
    (operator.emits source less).rank ≤ (operator.emits source more).rank := by
  rw [emits, emits]
  by_cases origin : operator.kind.transform = .origin
  · rw [origin]
    rfl
  · exact Transform.rank_apply_mono origin atMost _ _

/-- Windows take the danger away from live data without end, and leave other data as it is. -/
theorem Operator.rank_emits_of_windows {operator : Operator}
    (windows : operator.kind = .windowedAggregate) (source : SourceFile) (input : TemporalClass) :
    (operator.emits source input).rank = min 1 input.rank := by
  rw [emits, windows]
  cases input <;> rfl

theorem EvaluatedOperator.blamed?_eq_none_iff (evaluated : EvaluatedOperator) :
    evaluated.blamed? = none ↔
      evaluated.operator.kind.requirement = .requiresBounded → evaluated.input.rank ≤ 1 := by
  rw [blamed?]
  cases evaluated.operator.kind.requirement <;> cases evaluated.input <;>
    simp [TemporalClass.rank]

/--
Operators before and after windows were added to them, from one place up to another one.  No
source is blamed for what was added, nor for an operator with windows before it, nor for any
other operator for which none was blamed before.
-/
inductive Eased (added : Nat → Option Operator) :
    Nat → Nat → List EvaluatedOperator → List EvaluatedOperator → Prop where
  | nil (place : Nat) : Eased added place place [] []
  | kept {place last : Nat} {old new : EvaluatedOperator} {rest others : List EvaluatedOperator}
      (unchanged : added place = none) (harmless : old.blamed? = none → new.blamed? = none)
      (later : Eased added (place + 1) last rest others) :
      Eased added place last (old :: rest) (new :: others)
  | windowed {place last : Nat} {operator : Operator} {old window new : EvaluatedOperator}
      {rest others : List EvaluatedOperator} (given : added place = some operator)
      (admits : window.blamed? = none) (helped : new.blamed? = none)
      (later : Eased added (place + 1) last rest others) :
      Eased added place last (old :: rest) (window :: new :: others)

namespace Eased

variable {added : Nat → Option Operator}

theorem append {place middle last : Nat} {rest others restLater othersLater :
    List EvaluatedOperator} (first : Eased added place middle rest others)
    (second : Eased added middle last restLater othersLater) :
    Eased added place last (rest ++ restLater) (others ++ othersLater) := by
  induction first with
  | nil place => exact second
  | kept unchanged harmless later ih => exact .kept unchanged harmless (ih second)
  | windowed given admits helped later ih => exact .windowed given admits helped (ih second)

end Eased

namespace Stage

theorem evaluateChain_append (source : SourceFile) (arriving : List TemporalClass)
    (first second : List (Stage Operator)) :
    let front := evaluateChain source arriving first
    let others := evaluateChain source front.results second
    evaluateChain source arriving (first ++ second) =
      ⟨front.operators ++ others.operators, others.results⟩ := by
  induction first generalizing arriving with
  | nil => rfl
  | cons stage rest ih =>
      simp only [List.cons_append, evaluateChain, ih, List.append_assoc]

end Stage

/--
An evaluation of operators after windows were added to them: nothing about them has become
worse, nor about what leaves them.
-/
structure Evaluation.EasedTo (added : Nat → Option Operator) (place last : Nat)
    (before after : Evaluation) : Prop where
  operators : Eased added place last before.operators after.operators
  results : (TemporalClass.combine after.results).rank ≤
    (TemporalClass.combine before.results).rank

section Eases

variable {added : Nat → Option Operator}

namespace Stage

theorem eases_step (windows : AddsWindows added) (source : SourceFile) (place : Nat)
    {arriving easier : List TemporalClass}
    (atMost : (TemporalClass.combine easier).rank ≤ (TemporalClass.combine arriving).rank)
    (operator : Operator) :
    (operator.evaluate source arriving).EasedTo added place (place + 1)
      (evaluateChain source easier ((step operator).addTo added place)) := by
  cases given : added place with
  | none =>
      simp only [addTo, given, Option.toList_none, List.map_nil, List.nil_append, evaluateChain,
        evaluate, Operator.evaluate, List.append_nil]
      constructor
      · refine .kept given ?_ (.nil _)
        rw [EvaluatedOperator.blamed?_eq_none_iff, EvaluatedOperator.blamed?_eq_none_iff]
        exact fun admits requires => atMost.trans (admits requires)
      · exact operator.rank_emits_mono source atMost
  | some window =>
      have cut := Operator.rank_emits_of_windows (windows place window given) source
        (TemporalClass.combine easier)
      simp only [addTo, given, Option.toList_some, List.map_singleton, List.singleton_append,
        evaluateChain, evaluate, Operator.evaluate, List.append_nil, TemporalClass.combine,
        List.foldl_nil]
      constructor
      · refine .windowed given ?_ ?_ (.nil _)
        · rw [EvaluatedOperator.blamed?_eq_none_iff, windows place window given]
          exact fun requires => absurd requires (by decide)
        · rw [EvaluatedOperator.blamed?_eq_none_iff]
          exact fun _ => cut.trans_le (min_le_left _ _)
      · exact operator.rank_emits_mono source (cut.trans_le ((min_le_right _ _).trans atMost))

mutual

theorem eases_stage (windows : AddsWindows added) (source : SourceFile) (place : Nat)
    {arriving easier : List TemporalClass}
    (atMost : (TemporalClass.combine easier).rank ≤ (TemporalClass.combine arriving).rank)
    (stage : Stage Operator) :
    (stage.evaluate source arriving).EasedTo added place (place + stage.steps.length)
      (evaluateChain source easier (stage.addTo added place)) := by
  cases stage with
  | step operator => exact eases_step windows source place atMost operator
  | parallel branches span =>
      have block := eases_branches windows source place atMost branches
      simpa only [addTo, evaluateChain, evaluate, steps, List.append_nil] using block

theorem eases_chain (windows : AddsWindows added) (source : SourceFile) (place : Nat)
    {arriving easier : List TemporalClass}
    (atMost : (TemporalClass.combine easier).rank ≤ (TemporalClass.combine arriving).rank)
    (stages : List (Stage Operator)) :
    (evaluateChain source arriving stages).EasedTo added place (place + (chainSteps stages).length)
      (evaluateChain source easier (addToChain added place stages)) := by
  cases stages with
  | nil => exact ⟨.nil place, atMost⟩
  | cons stage rest =>
      have first := eases_stage windows source place atMost stage
      have others := eases_chain windows source (place + stage.steps.length) first.results rest
      rw [addToChain, evaluateChain_append, evaluateChain, chainSteps, List.length_append,
        ← Nat.add_assoc]
      exact ⟨first.operators.append others.operators, others.results⟩

/-- Windows that are added to chains make nothing more dangerous, in them or after them. -/
theorem eases_branches (windows : AddsWindows added) (source : SourceFile) (place : Nat)
    {arriving easier : List TemporalClass}
    (atMost : (TemporalClass.combine easier).rank ≤ (TemporalClass.combine arriving).rank)
    (branches : List (Flow Operator)) :
    (evaluateBranches source arriving branches).EasedTo added place
      (place + (branchSteps branches).length)
      (evaluateBranches source easier (addToBranches added place branches)) := by
  cases branches with
  | nil => exact ⟨.nil place, le_rfl⟩
  | cons flow rest =>
      obtain ⟨stages, span⟩ := flow
      have chain := eases_chain windows source place atMost stages
      have others :=
        eases_branches windows source (place + (chainSteps stages).length) atMost rest
      rw [addToBranches, evaluateBranches, evaluateBranches, branchSteps, List.length_append,
        ← Nat.add_assoc]
      refine ⟨chain.operators.append others.operators, ?_⟩
      rw [TemporalClass.rank_combine_append, TemporalClass.rank_combine_append]
      exact max_le_max chain.results others.results

end

end Stage

end Eases

/-! ## Where violations are -/

/-- Violations are at the places of the operators that the evaluation blames a source for. -/
theorem mem_violations_ofProgram_iff {source : SourceFile} {chains : List (Flow Operator)}
    {classes : TemporalMap}
    (found : (FlowGraph.ofProgram source chains).value.propagate? = some classes) {place : Nat} :
    place ∈ ((FlowGraph.ofProgram source chains).value.violations classes).map Violation.node ↔
      ∃ evaluated, (evaluateProgram source chains).operators[place]? = some evaluated ∧
        evaluated.blamed? ≠ none := by
  have visited := FlowGraph.order_of_propagate? found
  rw [FlowGraph.order?_ofProgram, Option.some.injEq] at visited
  have reported := congrArg Option.isSome (violationAt?_ofProgram source chains classes place)
  rw [Option.isSome_map, ← evaluateProgram_operators found] at reported
  rw [FlowGraph.map_node_violations, List.mem_filter, ← visited, List.mem_range, reported]
  have length : (evaluateProgram source chains).operators.length =
      (Stage.branchSteps chains).length := by
    rw [evaluateProgram_operators found, length_evaluatedFrom]
  cases present : (evaluateProgram source chains).operators[place]? with
  | none => simp
  | some evaluated =>
      have bound := (List.getElem?_eq_some_iff.mp present).1
      simp [length ▸ bound, Option.isSome_iff_ne_none]

theorem exists_violations_ofProgram (source : SourceFile) (chains : List (Flow Operator)) :
    ∃ found, (FlowGraph.ofProgram source chains).value.findViolations? = some found := by
  obtain ⟨classes, propagated⟩ := FlowGraph.propagate?_of_acyclic
    (FlowGraph.wellFormed_ofProgram source chains) (FlowGraph.acyclic_ofProgram source chains)
  exact ⟨_, FlowGraph.findViolations?_eq propagated⟩

/-- A source has no violation, since it does not wait for anything. -/
theorem ne_source_of_violation {source : SourceFile} {chains : List (Flow Operator)}
    {found : List Violation}
    (isFound : (FlowGraph.ofProgram source chains).value.findViolations? = some found)
    {place : Nat} (member : place ∈ found.map Violation.node) {operator : Operator}
    (present : (Stage.branchSteps chains)[place]? = some operator) : operator.kind ≠ .source := by
  obtain ⟨classes, -, rfl⟩ := Option.map_eq_some_iff.mp isFound
  obtain ⟨violation, isViolation, rfl⟩ := List.mem_map.mp member
  obtain ⟨place, -, reported⟩ := FlowGraph.mem_violations.mp isViolation
  obtain ⟨node, blamed, isNode, required, -, rfl⟩ := FlowGraph.violationAt?_eq_some_iff.mp reported
  rw [FlowGraph.nodes_ofProgram, List.getElem?_map, present, Option.map_some,
    Option.some.injEq] at isNode
  subst isNode
  rintro isSource
  rw [Operator.node, isSource] at required
  cases required

/-- How many operators are added before one; the first operator has the given place. -/
def addedBefore (added : Nat → Option Operator) (place number : Nat) : Nat :=
  (List.range' place number).countP fun other => (added other).isSome

theorem addedBefore_succ (added : Nat → Option Operator) (place number : Nat) :
    addedBefore added place (number + 1) =
      addedBefore added (place + 1) number + (added place).toList.length := by
  rw [addedBefore, List.range'_succ, List.countP_cons, addedBefore]
  cases added place <;> rfl

/--
If a source is blamed for an operator after windows were added, one was blamed for the same
operator before, and it has no windows before it.
-/
theorem Eased.exists_old {added : Nat → Option Operator} {place last : Nat}
    {rest others : List EvaluatedOperator} (eased : Eased added place last rest others)
    {number : Nat} {new : EvaluatedOperator} (present : others[number]? = some new)
    (blamed : new.blamed? ≠ none) :
    ∃ offset old, rest[offset]? = some old ∧ old.blamed? ≠ none ∧ added (place + offset) = none ∧
      number = offset + addedBefore added place offset := by
  induction eased generalizing number with
  | nil place => simp at present
  | kept unchanged harmless later ih =>
      cases number with
      | zero =>
          obtain rfl := Option.some.inj present
          exact ⟨0, _, rfl, mt harmless blamed, unchanged, rfl⟩
      | succ number =>
          obtain ⟨offset, old, isOld, oldBlamed, alone, position⟩ := ih present
          refine ⟨offset + 1, old, isOld, oldBlamed, ?_, ?_⟩
          · rwa [Nat.add_right_comm, Nat.add_assoc] at alone
          · rw [position, addedBefore_succ, unchanged]
            exact Nat.add_right_comm _ _ _
  | windowed given admits helped later ih =>
      match number with
      | 0 =>
          obtain rfl := Option.some.inj present
          exact absurd admits blamed
      | 1 =>
          obtain rfl := Option.some.inj present
          exact absurd helped blamed
      | number + 2 =>
          obtain ⟨offset, old, isOld, oldBlamed, alone, position⟩ := ih present
          refine ⟨offset + 1, old, isOld, oldBlamed, ?_, ?_⟩
          · rwa [Nat.add_right_comm, Nat.add_assoc] at alone
          · rw [position, addedBefore_succ, given, Option.toList_some, List.length_singleton]
            omega

/-! ## Programs with windows added -/

section Program

variable {source : SourceFile} {chains : List (Flow Operator)} {added : Nat → Option Operator}
  (windows : AddsWindows added)

include windows

theorem ofProgram_addTo_accepted (accepted : (FlowGraph.ofProgram source chains).diagnostics = [])
    (spares : SparesSources added 0 (Stage.branchSteps chains)) :
    (FlowGraph.ofProgram source (Stage.addToBranches added 0 chains)).diagnostics = [] := by
  rw [FlowGraph.diagnostics_ofProgram] at accepted ⊢
  exact (Stage.wireBranches_addTo windows source 0 Iff.rfl spares accepted).1

/-- A violation that is left was there before, at an operator without windows before it. -/
theorem exists_old_violation {before after : List Violation}
    (foundBefore : (FlowGraph.ofProgram source chains).value.findViolations? = some before)
    (foundAfter : (FlowGraph.ofProgram source
      (Stage.addToBranches added 0 chains)).value.findViolations? = some after)
    {place : Nat} (member : place ∈ after.map Violation.node) :
    ∃ old ∈ before.map Violation.node, added old = none ∧
      place = old + addedBefore added 0 old := by
  obtain ⟨classes, propagated, rfl⟩ := Option.map_eq_some_iff.mp foundBefore
  obtain ⟨easier, propagatedAfter, rfl⟩ := Option.map_eq_some_iff.mp foundAfter
  obtain ⟨new, present, blamed⟩ := (mem_violations_ofProgram_iff propagatedAfter).mp member
  have nothing : (TemporalClass.combine []).rank ≤ (TemporalClass.combine []).rank := le_rfl
  have eased := Stage.eases_branches windows source 0 nothing chains
  obtain ⟨offset, old, isOld, oldBlamed, alone, position⟩ :=
    eased.operators.exists_old present blamed
  rw [Nat.zero_add] at alone
  exact ⟨offset, (mem_violations_ofProgram_iff propagated).mpr ⟨old, isOld, oldBlamed⟩, alone,
    position⟩

end Program

/-! ## Operators added at some places -/

/-- Operators that are added at the places of a list. -/
def addedAt (places : List Nat) (window : Nat → Operator) (place : Nat) : Option Operator :=
  if place ∈ places then some (window place) else none

section AddedAt

variable {window : Nat → Operator}

theorem addedAt_eq_none_iff {places : List Nat} {place : Nat} :
    addedAt places window place = none ↔ place ∉ places := by
  simp [addedAt]

theorem addsWindows_addedAt (windows : ∀ place, (window place).kind = .windowedAggregate)
    (places : List Nat) : AddsWindows (addedAt places window) := by
  intro place operator isAdded
  obtain ⟨-, given⟩ := Option.ite_none_right_eq_some.mp isAdded
  exact Option.some.inj given ▸ windows place

theorem sparesSources_addedAt {places : List Nat} {operators : List Operator}
    (passes : ∀ place ∈ places, ∀ operator, operators[place]? = some operator →
      operator.kind ≠ .source) :
    SparesSources (addedAt places window) 0 operators := by
  intro place operator present isAdded
  rw [Nat.zero_add, Ne, addedAt_eq_none_iff, not_not] at isAdded
  exact passes place isAdded operator present

theorem addedBefore_addedAt (place number : Nat) :
    addedBefore (addedAt [place] window) 0 number = if place < number then 1 else 0 := by
  have isPlace : (fun other => (addedAt [place] window other).isSome) = (· == place) := by
    funext other
    by_cases same : other = place <;> simp [addedAt, same]
  rw [addedBefore, isPlace, ← List.range_eq_range']
  have once := (List.nodup_range (n := number)).count (a := place)
  simpa [List.count] using once

theorem addToSteps_eq_self {added : Nat → Option Operator} {place : Nat}
    {operators : List Operator} (nothing : ∀ other, place ≤ other → added other = none) :
    Stage.addToSteps added place operators = operators := by
  induction operators generalizing place with
  | nil => rfl
  | cons operator rest ih =>
      have later : Stage.addToSteps added (place + 1) rest = rest :=
        ih fun other above => nothing other (Nat.le_of_succ_le above)
      rw [Stage.addToSteps, nothing place le_rfl, later, Option.toList_none, List.nil_append]

theorem addToSteps_addedAt (window : Nat → Operator) (place number : Nat)
    {operators : List Operator} (bound : number < operators.length) :
    Stage.addToSteps (addedAt [place + number] window) place operators =
      operators.insertIdx number (window (place + number)) := by
  induction operators generalizing place number with
  | nil => cases bound
  | cons operator rest ih =>
      cases number with
      | zero =>
          have here : addedAt [place + 0] window place = some (window (place + 0)) :=
            if_pos (List.mem_singleton_self place)
          have later : Stage.addToSteps (addedAt [place + 0] window) (place + 1) rest = rest := by
            apply addToSteps_eq_self
            intro other above
            exact addedAt_eq_none_iff.mpr (by simp; omega)
          rw [Stage.addToSteps, here, later]
          rfl
      | succ number =>
          have notHere : addedAt [place + (number + 1)] window place = none :=
            addedAt_eq_none_iff.mpr (by simp)
          have later := ih (place + 1) number (Nat.lt_of_succ_lt_succ bound)
          rw [Nat.add_assoc, Nat.add_comm 1] at later
          rw [Stage.addToSteps, notHere, later]
          rfl

/-- A violation that is left after one operator was added has moved by one place at most. -/
theorem exists_old_violation_of_one {source : SourceFile} {chains : List (Flow Operator)}
    (windows : ∀ place, (window place).kind = .windowedAggregate) {place : Nat}
    {before after : List Violation}
    (foundBefore : (FlowGraph.ofProgram source chains).value.findViolations? = some before)
    (foundAfter : (FlowGraph.ofProgram source
      (Stage.addToBranches (addedAt [place] window) 0 chains)).value.findViolations? = some after)
    {other : Nat} (member : other ∈ after.map Violation.node) :
    ∃ old ∈ before.map Violation.node,
      old ≠ place ∧ other = if old < place then old else old + 1 := by
  obtain ⟨old, isOld, alone, position⟩ :=
    exists_old_violation (addsWindows_addedAt windows [place]) foundBefore foundAfter member
  rw [addedAt_eq_none_iff, List.mem_singleton] at alone
  refine ⟨old, isOld, alone, ?_⟩
  rw [position, addedBefore_addedAt]
  split_ifs <;> omega

/-- No violation is left after windows were put before every operator that had one. -/
theorem violations_eq_nil_of_all {source : SourceFile} {chains : List (Flow Operator)}
    (windows : ∀ place, (window place).kind = .windowedAggregate) {before after : List Violation}
    (foundBefore : (FlowGraph.ofProgram source chains).value.findViolations? = some before)
    (foundAfter : (FlowGraph.ofProgram source
      (Stage.addToBranches (addedAt (before.map Violation.node) window) 0
        chains)).value.findViolations? = some after) :
    after = [] := by
  rw [← List.map_eq_nil_iff (f := Violation.node), List.eq_nil_iff_forall_not_mem]
  intro place member
  obtain ⟨old, isOld, alone, -⟩ :=
    exists_old_violation (addsWindows_addedAt windows _) foundBefore foundAfter member
  exact addedAt_eq_none_iff.mp alone isOld

end AddedAt

/-! ## The remedy -/

/--
The remedy of a violation works and does no harm.  A window operator that is put right before
an operator other than a source, at any depth of a program without errors of its wiring, gives
such a program again.  The operator has no violation then, and any other violation, which may
have moved by one place, was there before.  With windows before all operators that have a
violation, the program is accepted.
-/
theorem remedy_works (source : SourceFile) (chains : List (Flow Operator))
    (accepted : (FlowGraph.ofProgram source chains).diagnostics = []) (window : Nat → Operator)
    (windows : ∀ place, (window place).kind = .windowedAggregate) :
    ∃ found, (FlowGraph.ofProgram source chains).value.findViolations? = some found ∧
      (∀ place operator, (Stage.branchSteps chains)[place]? = some operator →
        operator.kind ≠ .source →
          let remedied := Stage.addToBranches (addedAt [place] window) 0 chains
          let built := FlowGraph.ofProgram source remedied
          Stage.branchSteps remedied =
              (Stage.branchSteps chains).insertIdx place (window place) ∧
            built.diagnostics = [] ∧
            ∃ left, built.value.findViolations? = some left ∧
              place + 1 ∉ left.map Violation.node ∧
              ∀ other ∈ left.map Violation.node, ∃ old ∈ found.map Violation.node,
                old ≠ place ∧ other = if old < place then old else old + 1) ∧
      let remedied := Stage.addToBranches (addedAt (found.map Violation.node) window) 0 chains
      let built := FlowGraph.ofProgram source remedied
      built.diagnostics = [] ∧ built.value.analyze? = some (.ok built.value) := by
  obtain ⟨found, foundBefore⟩ := exists_violations_ofProgram source chains
  refine ⟨found, foundBefore, ?_, ?_⟩
  · intro place operator present passes remedied built
    have addsWindows := addsWindows_addedAt windows [place]
    have spares : SparesSources (addedAt [place] window) 0 (Stage.branchSteps chains) := by
      apply sparesSources_addedAt
      intro other isPlace _ isOther
      rw [List.mem_singleton.mp isPlace, present] at isOther
      exact Option.some.inj isOther ▸ passes
    obtain ⟨left, foundAfter⟩ := exists_violations_ofProgram source remedied
    have moved : ∀ other ∈ left.map Violation.node, ∃ old ∈ found.map Violation.node,
        old ≠ place ∧ other = if old < place then old else old + 1 :=
      fun other => exists_old_violation_of_one windows foundBefore foundAfter
    refine ⟨?_, ofProgram_addTo_accepted addsWindows accepted spares, left, foundAfter, ?_, moved⟩
    · have steps := addToSteps_addedAt window 0 place (List.getElem?_eq_some_iff.mp present).1
      rw [Nat.zero_add] at steps
      rw [Stage.steps_addToBranches, steps]
    · intro member
      obtain ⟨old, -, elsewhere, position⟩ := moved _ member
      split_ifs at position <;> omega
  · intro remedied built
    have addsWindows := addsWindows_addedAt windows (found.map Violation.node)
    have spares : SparesSources (addedAt (found.map Violation.node) window) 0
        (Stage.branchSteps chains) :=
      sparesSources_addedAt fun _ member _ => ne_source_of_violation foundBefore member
    obtain ⟨left, foundAfter⟩ := exists_violations_ofProgram source remedied
    refine ⟨ofProgram_addTo_accepted addsWindows accepted spares, ?_⟩
    rw [FlowGraph.analyze?, foundAfter, violations_eq_nil_of_all windows foundBefore foundAfter]
    rfl

/-- Live data without end, and three operators that wait for its end. -/
def endlessTails : SourceFile :=
  .unnamed "emit -to :end:\n| (sort x; head 3 | tail) | sort y"

/-- A proc `batch -every :1s:` that stands nowhere. -/
def batchEverySecond : Operator where
  name := "batch"
  kind := .windowedAggregate
  options := { every := some ⟨1000000000, by decide⟩ }
  span := .empty 0

theorem remedy_works_endlessTails :
    ∃ program, endlessTails.program = .ok program ∧
      let chains := program.operators.value
      let once := Stage.addToBranches (addedAt [3] fun _ => batchEverySecond) 0 chains
      let everywhere := Stage.addToBranches (addedAt [1, 3, 4] fun _ => batchEverySecond) 0 chains
      let built := FlowGraph.ofProgram endlessTails everywhere
      (FlowGraph.ofProgram endlessTails chains).diagnostics = [] ∧
        ((FlowGraph.ofProgram endlessTails chains).value.findViolations?.map fun found =>
          found.map Violation.node) = some [1, 3, 4] ∧
        (FlowGraph.ofProgram endlessTails once).diagnostics = [] ∧
        (∃ left, (FlowGraph.ofProgram endlessTails once).value.findViolations? = some left ∧
          4 ∉ left.map Violation.node) ∧
        built.value.analyze? = some (.ok built.value) := by
  have computed : (match endlessTails.program with
      | .ok program =>
          decide ((FlowGraph.ofProgram endlessTails program.operators.value).diagnostics = [] ∧
            ((FlowGraph.ofProgram endlessTails
              program.operators.value).value.findViolations?.map fun found =>
                found.map Violation.node) = some [1, 3, 4] ∧
            ((Stage.branchSteps program.operators.value)[3]?.map Operator.kind) = some .tail)
      | .error _ => false) = true := by
    decide +kernel
  cases parsed : endlessTails.program with
  | error found => simp [parsed] at computed
  | ok program =>
      rw [parsed] at computed
      obtain ⟨accepted, violations, isTail⟩ := of_decide_eq_true computed
      obtain ⟨operator, present, kind⟩ := Option.map_eq_some_iff.mp isTail
      obtain ⟨found, isFound, single, -, accepts⟩ := remedy_works endlessTails
        program.operators.value accepted (fun _ => batchEverySecond) fun _ => rfl
      obtain ⟨-, noErrors, left, isLeft, helped, -⟩ :=
        single 3 operator present (by rw [kind]; decide)
      have places : found.map Violation.node = [1, 3, 4] := by
        rw [isFound] at violations
        exact Option.some.inj violations
      rw [places] at accepts
      exact ⟨program, rfl, accepted, violations, noErrors, ⟨left, isLeft, helped⟩, accepts⟩

end Flowgraph
