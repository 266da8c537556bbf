import Flowgraph.Operator.OfCall
import Flowgraph.Proofs.Program.Relocation

/-!
# Operators at other places

The meaning of a call depends on its names and values, and on no place.  Calls that have
been moved become the same operators, at the places that the calls have been moved to, and
the errors on the way have the same codes and messages in the same order.

Two checks that differ only so much agree (`Checked.Agree`).  Agreement goes through a
sequence of checks (`Agree.bind`), so each check is compared with itself after the move,
and the results are put together along the program.
-/

namespace Flowgraph

/-- What an error says, wherever it stands. -/
def Diagnostic.statement (diagnostic : Diagnostic) : Option DiagnosticCode × String :=
  (diagnostic.code, diagnostic.message)

/-! ## Checks that agree -/

namespace Checked

/-- The results of two checks are related, and their errors say the same. -/
structure Agree {α β : Type} (related : α → β → Prop) (first : Checked α) (second : Checked β) :
    Prop where
  value : related first.value second.value
  statements : first.diagnostics.map Diagnostic.statement =
    second.diagnostics.map Diagnostic.statement

namespace Agree

variable {α β γ δ : Type} {related : α → β → Prop} {relatedNext : γ → δ → Prop}

/-- Related values agree. -/
theorem pure {first : α} {second : β} (values : related first second) :
    Agree related (Pure.pure first) (Pure.pure second) :=
  ⟨values, rfl⟩

/-- Checks agree that go on from agreeing checks to agreeing ones. -/
theorem bind {first : Checked α} {second : Checked β} {next : α → Checked γ}
    {nextOther : β → Checked δ} (agree : Agree related first second)
    (go : ∀ value other, related value other →
      Agree relatedNext (next value) (nextOther other)) :
    Agree relatedNext (first >>= next) (second >>= nextOther) := by
  have later := go first.value second.value agree.value
  refine ⟨later.value, ?_⟩
  rw [diagnostics_bind, diagnostics_bind, List.map_append, List.map_append, agree.statements,
    later.statements]

/-- Where the first results are equal, the next checks agree for each of them. -/
theorem bind_eq {first second : Checked α} {next : α → Checked γ} {nextOther : α → Checked δ}
    (agree : Agree Eq first second)
    (go : ∀ value, Agree relatedNext (next value) (nextOther value)) :
    Agree relatedNext (first >>= next) (second >>= nextOther) :=
  agree.bind fun value _ same => same ▸ go value

/-- A check agrees with itself. -/
theorem refl (check : Checked α) : Agree Eq check check :=
  ⟨rfl, rfl⟩

/-- The same error agrees at any two places. -/
theorem error (code : DiagnosticCode) (message : String) (span other : Span) :
    Agree Eq (Checked.error code span message) (Checked.error code other message) :=
  ⟨rfl, rfl⟩

/-- So does the same error in place of a value. -/
theorem missing (code : DiagnosticCode) (message : String) (span other : Span) :
    Agree Eq (Checked.missing (α := α) code span message)
      (Checked.missing (α := α) code other message) :=
  ⟨rfl, rfl⟩

/-- So does an error under the same condition. -/
theorem errorIf {condition same : Prop} [Decidable condition] [Decidable same]
    (equal : condition ↔ same) (code : DiagnosticCode) (message : String) (span other : Span) :
    Agree Eq (Checked.errorIf condition code span message)
      (Checked.errorIf same code other message) := by
  by_cases holds : condition
  · rw [Checked.errorIf, Checked.errorIf, if_pos holds, if_pos (equal.mp holds)]
    exact error code message span other
  · rw [Checked.errorIf, Checked.errorIf, if_neg holds, if_neg (mt equal.mpr holds)]
    exact refl _

end Agree

end Checked

open Checked (Agree)

/-! ## Values and options -/

variable (move : Relocation)

namespace Expr

@[simp]
theorem moment?_relocate (value : Expr) : (value.relocate move).moment? = value.moment? := by
  cases value <;> rfl

@[simp]
theorem positiveDuration?_relocate (value : Expr) :
    (value.relocate move).positiveDuration? = value.positiveDuration? := by
  cases value <;> rfl

@[simp]
theorem count?_relocate (value : Expr) : (value.relocate move).count? = value.count? := by
  cases value <;> rfl

@[simp]
theorem isName_relocate (name : String) (value : Expr) :
    (value.relocate move).isName name = value.isName name := by
  cases value <;> rfl

end Expr

namespace ProcCall

/-- A moved call has the same options at moved places. -/
theorem option?_relocate (call : ProcCall) (name : String) :
    (call.relocate move).option? name = (call.option? name).map (ProcOption.relocate move) := by
  rw [option?, option?, relocate, List.find?_map]
  rfl

/-- The names of options are checked in the same way wherever they stand. -/
theorem checkOptionNames_relocate (proc : Proc) (seen : List String) (options : List ProcOption) :
    Agree Eq (checkOptionNames proc seen options)
      (checkOptionNames proc seen (options.map (ProcOption.relocate move))) := by
  induction options generalizing seen with
  | nil => exact .refl _
  | cons option rest ih =>
      have later : ∀ _ : Unit, _ := fun _ => ih (option.name.name :: seen)
      by_cases given : option.name.name ∈ seen
      · simp only [checkOptionNames, List.map_cons, ProcOption.relocate, Ident.relocate,
          if_pos given]
        exact (Agree.error _ _ _ _).bind_eq later
      · simp only [checkOptionNames, List.map_cons, ProcOption.relocate, Ident.relocate,
          if_neg given]
        exact (Agree.errorIf Iff.rfl _ _ _ _).bind_eq later

/-- The number of arguments is checked in the same way wherever they stand. -/
theorem checkArguments_relocate (proc : Proc) (call : ProcCall) :
    Agree Eq (checkArguments proc call) (checkArguments proc (call.relocate move)) := by
  obtain ⟨name, options, arguments, span⟩ := call
  simp only [checkArguments, relocate]
  cases proc.argumentRule <;> cases arguments <;>
    first | exact .refl _ | exact .error _ _ _ _

/-- A moment means the same wherever it stands. -/
theorem momentValue_relocate (proc : Proc) (option : ProcOption) :
    Agree Eq (momentValue proc option) (momentValue proc (option.relocate move)) := by
  simp only [momentValue, ProcOption.relocate, Expr.moment?_relocate]
  cases option.value.moment? with
  | some moment => exact .refl _
  | none => exact .missing _ _ _ _

/-- A duration means the same wherever it stands. -/
theorem durationValue_relocate (proc : Proc) (what : String) (value : Expr) :
    Agree Eq (durationValue proc what value) (durationValue proc what (value.relocate move)) := by
  simp only [durationValue, Expr.positiveDuration?_relocate]
  cases value.positiveDuration? with
  | some duration => exact .refl _
  | none => exact .missing _ _ _ _

/-- A count means the same wherever it stands. -/
theorem limitValue_relocate (proc : Proc) (value : Expr) :
    Agree Eq (limitValue proc value) (limitValue proc (value.relocate move)) := by
  simp only [limitValue, Expr.count?_relocate]
  cases value.count? with
  | some count => exact .refl _
  | none => exact .missing _ _ _ _

/-- An option adds the same wherever it stands. -/
theorem addOption_relocate (proc : Proc) (options : OperatorOptions) (option : ProcOption) :
    Agree Eq (addOption proc options option)
      (addOption proc options (option.relocate move)) := by
  have name : (option.relocate move).name.name = option.name.name := rfl
  simp only [addOption, name]
  split
  · refine (momentValue_relocate move proc option).bind_eq fun moment => ?_
    exact (Agree.errorIf Iff.rfl _ _ _ _).bind_eq fun _ => .refl _
  · exact (momentValue_relocate move proc option).bind_eq fun _ => .refl _
  · exact (durationValue_relocate move proc "-last" option.value).bind_eq fun _ => .refl _
  · exact (durationValue_relocate move proc "-every" option.value).bind_eq fun _ => .refl _
  · exact (limitValue_relocate move proc option.value).bind_eq fun _ => .refl _
  · exact .refl _

/-- Options add the same wherever they stand. -/
theorem addOptions_relocate (proc : Proc) (options : OperatorOptions) (given : List ProcOption) :
    Agree Eq (addOptions proc options given)
      (addOptions proc options (given.map (ProcOption.relocate move))) := by
  induction given generalizing options with
  | nil => exact .refl _
  | cons option rest ih => exact (addOption_relocate move proc options option).bind_eq ih

theorem checkTrailing_relocate (proc : Proc) (call : ProcCall) (options : OperatorOptions) :
    Agree Eq (checkTrailing proc call options)
      (checkTrailing proc (call.relocate move) options) :=
  .errorIf Iff.rfl _ _ _ _

/-! ## Procs -/

/-- The interval of a window is the same wherever it stands. -/
theorem addInterval_relocate (proc : Proc) (call : ProcCall) (options : OperatorOptions) :
    Agree Eq (addInterval proc call options)
      (addInterval proc (call.relocate move) options) := by
  obtain ⟨name, given, arguments, span⟩ := call
  simp only [addInterval, relocate]
  cases arguments with
  | nil =>
      cases options.every with
      | some every => exact .refl _
      | none => exact (Agree.error _ _ _ _).bind_eq fun _ => .refl _
  | cons argument rest =>
      cases options.every with
      | some every => exact (Agree.error _ _ _ _).bind_eq fun _ => .refl _
      | none =>
          exact (durationValue_relocate move proc "interval" argument).bind_eq fun _ => .refl _

/-- The count of an operator is the same wherever it stands. -/
theorem countArgument_relocate (proc : Proc) (call : ProcCall) :
    Agree Eq (countArgument proc call) (countArgument proc (call.relocate move)) := by
  obtain ⟨name, options, arguments, span⟩ := call
  simp only [countArgument, relocate]
  cases arguments with
  | nil => exact .refl _
  | cons first others =>
      have one : ∀ message, Agree Eq
          (do Checked.error .invalidArgument first.span message; return (1 : UInt64))
          (do Checked.error .invalidArgument (first.relocate move).span message; return 1) :=
        fun message => (Agree.error _ _ _ _).bind_eq fun _ => .refl _
      simp only [List.map_cons, Expr.count?_relocate]
      cases first.count? with
      | some count =>
          cases others with
          | nil => exact .refl _
          | cons extra rest => exact (Agree.error _ _ _ _).bind_eq fun _ => .refl _
      | none =>
          cases others with
          | nil => exact one _
          | cons extra rest => exact (Agree.error _ _ _ _).bind_eq fun _ => one _

theorem checkFileView_relocate (call : ProcCall) :
    Agree Eq (checkFileView call) (checkFileView (call.relocate move)) := by
  refine .errorIf ?_ _ _ _ _
  have named : (call.relocate move).arguments.head?.map (Expr.isName "file") =
      call.arguments.head?.map (Expr.isName "file") := by
    rw [relocate]
    cases call.arguments <;> simp
  rw [named, option?_relocate, Option.isNone_map]

/-- A call has the same kind and options wherever it stands. -/
theorem kindAndOptions_relocate (proc : Proc) (call : ProcCall) (options : OperatorOptions) :
    Agree Eq (kindAndOptions proc call options)
      (kindAndOptions proc (call.relocate move) options) := by
  cases proc with
  | batch => exact (addInterval_relocate move .batch call options).bind_eq fun _ => .refl _
  | reduce =>
      refine (Agree.errorIf ?_ _ _ _ _).bind_eq fun _ => .refl _
      rw [option?_relocate, Option.isSome_map]
  | head => exact (countArgument_relocate move .head call).bind_eq fun _ => .refl _
  | tail => exact (countArgument_relocate move .tail call).bind_eq fun _ => .refl _
  | view | write => exact (checkFileView_relocate move call).bind_eq fun _ => .refl _
  | _ => exact .refl _

end ProcCall

/-! ## Operators -/

def Operator.relocate (operator : Operator) : Operator :=
  { operator with span := operator.span.relocateProc move }

namespace ProcCall

/-- A moved call of a known proc means the same operator, moved. -/
theorem operatorOf_relocate (proc : Proc) (call : ProcCall) :
    Agree (fun operator other => other = operator.relocate move) (operatorOf proc call)
      (operatorOf proc (call.relocate move)) := by
  refine (checkOptionNames_relocate move proc [] call.options).bind_eq fun _ => ?_
  refine (checkArguments_relocate move proc call).bind_eq fun _ => ?_
  refine (addOptions_relocate move proc {} call.options).bind_eq fun given => ?_
  refine (checkTrailing_relocate move proc call given).bind_eq fun _ => ?_
  refine (kindAndOptions_relocate move proc call given).bind_eq fun _ => ?_
  exact .pure rfl

/-- A moved call means the same operator, moved, or is refused in the same way. -/
theorem operator?_relocate (call : ProcCall) :
    Agree (fun operator other => other = operator.map (Operator.relocate move)) call.operator?
      (call.relocate move).operator? := by
  have name : (call.relocate move).name.name = call.name.name := rfl
  simp only [operator?, name]
  cases Proc.ofName? call.name.name with
  | some proc =>
      refine (operatorOf_relocate move proc call).bind ?_
      rintro operator _ rfl
      exact .pure rfl
  | none => exact ⟨rfl, rfl⟩

/-- An operator stands where its call stands. -/
theorem span_of_operator? {call : ProcCall} {operator : Operator}
    (known : call.operator?.value = some operator) : operator.span = call.span := by
  simp only [operator?] at known
  cases named : Proc.ofName? call.name.name with
  | some proc =>
      simp only [named, Checked.value_bind, Checked.value_pure, Option.some.injEq] at known
      rw [← known]
      rfl
  | none => simp [named, Checked.missing] at known

end ProcCall

namespace Stage

/-- A stage of operators at other places. -/
abbrev relocateOperators : Stage Operator → Stage Operator :=
  Stage.map (Operator.relocate move) (Span.relocate move)

mutual

/-- A moved stage means the same operators, moved. -/
theorem operators_relocate (stage : Stage ProcCall) :
    Agree (fun stages others => others = stages.map (relocateOperators move)) stage.operators
      (stage.relocate move).operators := by
  cases stage with
  | step call =>
      refine (call.operator?_relocate move).bind ?_
      rintro operator _ rfl
      refine .pure ?_
      cases operator <;> rfl
  | parallel branches span =>
      refine (branchOperators_relocate branches).bind ?_
      rintro block _ rfl
      exact .pure rfl

theorem chainOperators_relocate (stages : List (Stage ProcCall)) :
    Agree (fun stages others => others = stages.map (relocateOperators move))
      (chainOperators stages)
      (chainOperators (mapChain (ProcCall.relocate move) (Span.relocate move) stages)) := by
  cases stages with
  | nil => exact .pure rfl
  | cons stage rest =>
      refine (operators_relocate stage).bind ?_
      rintro first _ rfl
      refine (chainOperators_relocate rest).bind ?_
      rintro others _ rfl
      exact .pure (List.map_append ..).symm

/-- Moved chains become moved operators, with the same errors. -/
theorem branchOperators_relocate (branches : List (Flow ProcCall)) :
    Agree (fun chains others =>
        others = mapBranches (Operator.relocate move) (Span.relocate move) chains)
      (branchOperators branches) (branchOperators (relocateChains move branches)) := by
  cases branches with
  | nil => exact .pure rfl
  | cons flow rest =>
      obtain ⟨stages, span⟩ := flow
      refine (chainOperators_relocate stages).bind ?_
      rintro chain _ rfl
      refine (branchOperators_relocate rest).bind ?_
      rintro others _ rfl
      refine .pure ?_
      rw [mapBranches, mapChain_eq_map]

end

/-! ## Operators and their calls -/

/-- The operators and the errors of branches are those of the first ones and then the others. -/
theorem branchOperators_append (first second : List (Flow ProcCall)) :
    (branchOperators (first ++ second)).value =
        (branchOperators first).value ++ (branchOperators second).value ∧
      (branchOperators (first ++ second)).diagnostics =
        (branchOperators first).diagnostics ++ (branchOperators second).diagnostics := by
  induction first with
  | nil => exact ⟨rfl, rfl⟩
  | cons flow rest ih =>
      obtain ⟨stages, span⟩ := flow
      simp only [List.cons_append, branchOperators, Checked.value_bind, Checked.diagnostics_bind,
        Checked.value_pure, Checked.diagnostics_pure, ih.1, ih.2, List.append_nil,
        List.append_assoc, and_self]

/-- Moved chains with others after them become the operators of both, with the same errors. -/
theorem branchOperators_append_relocate (moveLater : Relocation)
    (first second : List (Flow ProcCall)) :
    (branchOperators (relocateChains move first ++ relocateChains moveLater second)).value =
        mapBranches (Operator.relocate move) (Span.relocate move) (branchOperators first).value ++
          mapBranches (Operator.relocate moveLater) (Span.relocate moveLater)
            (branchOperators second).value ∧
      (branchOperators
          (relocateChains move first ++ relocateChains moveLater second)).diagnostics.map
          Diagnostic.statement =
        (branchOperators first).diagnostics.map Diagnostic.statement ++
          (branchOperators second).diagnostics.map Diagnostic.statement := by
  have operators := branchOperators_relocate move first
  have others := branchOperators_relocate moveLater second
  obtain ⟨value, diagnostics⟩ :=
    branchOperators_append (relocateChains move first) (relocateChains moveLater second)
  constructor
  · rw [value, operators.value, others.value]
  · rw [diagnostics, List.map_append, operators.statements, others.statements]

/-- The steps of a chain are those of its first stages and then those of the others. -/
theorem chainSteps_append {α : Type} (first second : List (Stage α)) :
    chainSteps (first ++ second) = chainSteps first ++ chainSteps second := by
  induction first with
  | nil => rfl
  | cons stage rest ih => rw [List.cons_append, chainSteps, chainSteps, ih, List.append_assoc]

mutual

/-- The operators of a stage are those of its calls that have one. -/
theorem chainSteps_operators (stage : Stage ProcCall) :
    chainSteps stage.operators.value =
      stage.steps.filterMap fun call => call.operator?.value := by
  cases stage with
  | step call =>
      simp only [operators, Checked.value_bind, Checked.value_pure, steps]
      cases known : call.operator?.value with
      | some operator => simp [chainSteps, steps, known]
      | none => simp [chainSteps, known]
  | parallel branches span =>
      simpa [operators, chainSteps, steps] using branchSteps_branchOperators branches

theorem chainSteps_chainOperators (stages : List (Stage ProcCall)) :
    chainSteps (chainOperators stages).value =
      (chainSteps stages).filterMap fun call => call.operator?.value := by
  cases stages with
  | nil => rfl
  | cons stage rest =>
      simp only [chainOperators, Checked.value_bind, Checked.value_pure, chainSteps_append,
        chainSteps_operators stage, chainSteps_chainOperators rest, chainSteps,
        List.filterMap_append]

/-- The operators of chains come from their calls, in the same order. -/
theorem branchSteps_branchOperators (branches : List (Flow ProcCall)) :
    branchSteps (branchOperators branches).value =
      (branchSteps branches).filterMap fun call => call.operator?.value := by
  cases branches with
  | nil => rfl
  | cons flow rest =>
      obtain ⟨stages, span⟩ := flow
      simp only [branchOperators, Checked.value_bind, Checked.value_pure, branchSteps,
        chainSteps_chainOperators stages, branchSteps_branchOperators rest, List.filterMap_append]

end

end Stage

/-- Operators stand where some of the calls stand, in the same order. -/
theorem spans_operators_sublist (program : Program) :
    ((Stage.branchSteps program.operators.value).map Operator.span).Sublist
      ((Stage.branchSteps program.chains).map ProcCall.span) := by
  rw [Program.operators, Stage.branchSteps_branchOperators]
  induction Stage.branchSteps program.chains with
  | nil => exact .slnil
  | cons call rest ih =>
      rw [List.filterMap_cons, List.map_cons]
      cases known : call.operator?.value with
      | none => exact ih.cons _
      | some operator =>
          rw [List.map_cons, ProcCall.span_of_operator? known]
          exact ih.cons_cons _

end Flowgraph
