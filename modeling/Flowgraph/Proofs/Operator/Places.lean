import Flowgraph.Proofs.Operator.Relocation
import Flowgraph.Proofs.Program.Spans
import Flowgraph.Proofs.Source.Guarded

/-!
# The places of errors in calls

An error of a call points to the call or to one of its parts: its name, an option, the name
of an option, or a value.  So the errors of a program point to parts of the program
(`Program.operators_pointTo`), and the operators stand where calls of the program stand.
-/

namespace Flowgraph

/-! ## Checks and the places they point to -/

namespace Checked

variable {α β : Type} {places : List Span}

/-- The errors of a check point to some of the given places only. -/
def PointsTo (places : List Span) (check : Checked α) : Prop :=
  ∀ diagnostic ∈ check.diagnostics, ∀ span ∈ diagnostic.spans, span ∈ places

namespace PointsTo

/-- A value alone reports nothing. -/
theorem pure (value : α) : PointsTo places (Pure.pure value) := by
  simp [PointsTo]

/-- Checks made one after the other point to the places that each of them points to. -/
theorem bind {first : Checked α} {next : α → Checked β} (points : PointsTo places first)
    (later : PointsTo places (next first.value)) : PointsTo places (first >>= next) := by
  intro diagnostic member
  rcases List.mem_append.mp member with inFirst | inNext
  · exact points diagnostic inFirst
  · exact later diagnostic inNext

/-- An error at one of the places points to them. -/
theorem error {span : Span} (member : span ∈ places) (code : DiagnosticCode) (message : String) :
    PointsTo places (Checked.error code span message) := by
  simpa [PointsTo, Checked.error, Diagnostic.error, Diagnostic.spans] using member

/-- So does an error that stands for a value. -/
theorem missing {span : Span} (member : span ∈ places) (code : DiagnosticCode)
    (message : String) : PointsTo places (Checked.missing (α := α) code span message) :=
  error member code message

/-- So does an error that depends on a condition. -/
theorem errorIf {span : Span} (member : span ∈ places) (condition : Prop) [Decidable condition]
    (code : DiagnosticCode) (message : String) :
    PointsTo places (Checked.errorIf condition code span message) := by
  rw [Checked.errorIf]
  split_ifs
  · exact error member code message
  · exact pure ()

/-- Pointing to some places is pointing to any more. -/
theorem mono {more : List Span} {check : Checked α} (points : PointsTo places check)
    (subset : places ⊆ more) : PointsTo more check :=
  fun diagnostic member span isPlace => subset (points diagnostic member span isPlace)

end PointsTo

end Checked

open Checked (PointsTo)

/-! ## Parts of calls -/

/-- A value is itself one of the places in it. -/
theorem Expr.span_mem_spans (value : Expr) : value.span ∈ value.spans := by
  cases value <;> simp [span, spans]

/-- The places of an option are places of its call. -/
theorem ProcOption.spans_subset {call : ProcCall} {option : ProcOption}
    (member : option ∈ call.options) : option.spans ⊆ call.spans := by
  intro span inOption
  have inOptions := List.mem_flatMap_of_mem member inOption
  exact List.mem_cons_of_mem _ (List.mem_cons_of_mem _ (List.mem_append_left _ inOptions))

/-- The places of an argument are places of its call. -/
theorem Expr.spans_subset {call : ProcCall} {value : Expr} (member : value ∈ call.arguments) :
    value.spans ⊆ call.spans := by
  intro span inValue
  have inArguments := List.mem_flatMap_of_mem member inValue
  exact List.mem_cons_of_mem _ (List.mem_cons_of_mem _ (List.mem_append_right _ inArguments))

namespace ProcCall

/-- A call is itself one of the places in it. -/
theorem span_mem_spans (call : ProcCall) : call.span ∈ call.spans :=
  List.mem_cons_self ..

theorem name_mem_spans (call : ProcCall) : call.name.span ∈ call.spans :=
  List.mem_cons_of_mem _ (List.mem_cons_self ..)

theorem argument_mem_spans {call : ProcCall} {value : Expr} (member : value ∈ call.arguments) :
    value.span ∈ call.spans :=
  Expr.spans_subset member value.span_mem_spans

/-! ## Each check -/

/-- An option that is unknown or said again is reported at its name. -/
theorem checkOptionNames_pointsTo {places : List Span} (proc : Proc) (seen : List String)
    {options : List ProcOption} (given : ∀ option ∈ options, option.spans ⊆ places) :
    PointsTo places (checkOptionNames proc seen options) := by
  induction options generalizing seen with
  | nil => exact .pure ()
  | cons option rest ih =>
      have here := given option (List.mem_cons_self ..)
      have later := ih (option.name.name :: seen) fun other member =>
        given other (List.mem_cons_of_mem _ member)
      have whole : option.span ∈ places := here (List.mem_cons_self ..)
      have name : option.name.span ∈ places := here (List.mem_cons_of_mem _ (List.mem_cons_self ..))
      rw [checkOptionNames]
      split_ifs
      · exact (PointsTo.error whole _ _).bind later
      · exact (PointsTo.errorIf name _ _ _).bind later

/-- Missing arguments are reported at the call, and refused ones at the first of them. -/
theorem checkArguments_pointsTo (proc : Proc) (call : ProcCall) :
    PointsTo call.spans (checkArguments proc call) := by
  rw [checkArguments]
  split
  · exact .error call.span_mem_spans _ _
  · next first _ _ arguments =>
      exact .error (argument_mem_spans (by simp [arguments])) _ _
  · exact .pure ()

section Values

variable {places : List Span}

/-- What is no moment is reported where it stands. -/
theorem momentValue_pointsTo (proc : Proc) {option : ProcOption}
    (member : option.value.span ∈ places) : PointsTo places (momentValue proc option) := by
  rw [momentValue]
  cases option.value.moment? with
  | some moment => exact .pure _
  | none => exact .missing member _ _

/-- What is no duration is reported where it stands. -/
theorem durationValue_pointsTo (proc : Proc) (what : String) {value : Expr}
    (member : value.span ∈ places) : PointsTo places (durationValue proc what value) := by
  rw [durationValue]
  cases value.positiveDuration? with
  | some duration => exact .pure _
  | none => exact .missing member _ _

/-- What is no count is reported where it stands. -/
theorem limitValue_pointsTo (proc : Proc) {value : Expr} (member : value.span ∈ places) :
    PointsTo places (limitValue proc value) := by
  rw [limitValue]
  cases value.count? with
  | some count => exact .pure _
  | none => exact .missing member _ _

/-- The value of an option is all that is reported of it. -/
theorem addOption_pointsTo (proc : Proc) (options : OperatorOptions) {option : ProcOption}
    (member : option.value.span ∈ places) : PointsTo places (addOption proc options option) := by
  rw [addOption]
  split
  · exact (momentValue_pointsTo proc member).bind ((PointsTo.errorIf member _ _ _).bind (.pure _))
  · exact (momentValue_pointsTo proc member).bind (.pure _)
  · exact (durationValue_pointsTo proc _ member).bind (.pure _)
  · exact (durationValue_pointsTo proc _ member).bind (.pure _)
  · exact (limitValue_pointsTo proc member).bind (.pure _)
  · exact .pure _

/-- The values of options are all that is reported of them. -/
theorem addOptions_pointsTo (proc : Proc) (options : OperatorOptions) {given : List ProcOption}
    (members : ∀ option ∈ given, option.value.span ∈ places) :
    PointsTo places (addOptions proc options given) := by
  induction given generalizing options with
  | nil => exact .pure _
  | cons option rest ih =>
      have here := addOption_pointsTo proc options (members option (List.mem_cons_self ..))
      exact here.bind (ih _ fun other member => members other (List.mem_cons_of_mem _ member))

end Values

/-- A trailing stretch next to other bounds is reported at its option. -/
theorem checkTrailing_pointsTo (proc : Proc) (call : ProcCall) (options : OperatorOptions) :
    PointsTo call.spans (checkTrailing proc call options) := by
  refine .errorIf ?_ _ _ _
  cases found : call.option? "last" with
  | none => exact call.span_mem_spans
  | some option =>
      exact ProcOption.spans_subset (List.mem_of_find?_eq_some found) (List.mem_cons_self ..)

/-- A window without a length is reported at the call, and one with two at the argument. -/
theorem addInterval_pointsTo (proc : Proc) (call : ProcCall) (options : OperatorOptions) :
    PointsTo call.spans (addInterval proc call options) := by
  rw [addInterval]
  split
  · next argument _ _ arguments _ =>
      exact (PointsTo.error (argument_mem_spans (by simp [arguments])) _ _).bind (.pure _)
  · next argument _ arguments _ =>
      exact (durationValue_pointsTo proc _ (argument_mem_spans (by simp [arguments]))).bind
        (.pure _)
  · exact .pure _
  · exact (PointsTo.error call.span_mem_spans _ _).bind (.pure _)

/-- What is no count is reported as an argument of its call. -/
theorem countArgument_pointsTo (proc : Proc) (call : ProcCall) :
    PointsTo call.spans (countArgument proc call) := by
  rw [countArgument]
  split
  · exact .pure _
  · next first others arguments =>
      have isFirst : first.span ∈ call.spans := argument_mem_spans (by simp [arguments])
      cases others with
      | nil =>
          cases first.count? with
          | some count => exact .pure _
          | none => exact (PointsTo.error isFirst _ _).bind (.pure _)
      | cons extra rest =>
          apply (PointsTo.error (argument_mem_spans (by simp [arguments])) _ _).bind
          cases first.count? with
          | some count => exact .pure _
          | none => exact (PointsTo.error isFirst _ _).bind (.pure _)

/-- All that depends on the kind of a proc is reported in the call. -/
theorem kindAndOptions_pointsTo (proc : Proc) (call : ProcCall) (options : OperatorOptions) :
    PointsTo call.spans (kindAndOptions proc call options) := by
  cases proc with
  | batch => exact (addInterval_pointsTo _ call options).bind (.pure _)
  | reduce => exact (PointsTo.errorIf call.span_mem_spans _ _ _).bind (.pure _)
  | head | tail => exact (countArgument_pointsTo _ call).bind (.pure _)
  | view | write => exact (PointsTo.errorIf call.span_mem_spans _ _ _).bind (.pure _)
  | _ => exact .pure _

/-- A call of a known proc reports errors in the call only. -/
theorem operatorOf_pointsTo (proc : Proc) (call : ProcCall) :
    PointsTo call.spans (operatorOf proc call) := by
  have options : ∀ option ∈ call.options, option.value.span ∈ call.spans := fun option member =>
    ProcOption.spans_subset member
      (List.mem_cons_of_mem _ (List.mem_cons_of_mem _ option.value.span_mem_spans))
  refine (checkOptionNames_pointsTo proc [] fun option => ProcOption.spans_subset).bind ?_
  refine (checkArguments_pointsTo proc call).bind ?_
  refine (addOptions_pointsTo proc {} options).bind ?_
  refine (checkTrailing_pointsTo proc call _).bind ?_
  exact (kindAndOptions_pointsTo proc call _).bind (.pure _)

/-- A call reports errors in the call only, also of a proc that nobody knows. -/
theorem operator?_pointsTo (call : ProcCall) : PointsTo call.spans call.operator? := by
  rw [operator?]
  cases Proc.ofName? call.name.name with
  | some proc => exact (operatorOf_pointsTo proc call).bind (.pure _)
  | none => exact .missing call.name_mem_spans _ _

end ProcCall

/-! ## Programs -/

namespace Stage

mutual

/-- The errors of a stage point into the stage. -/
theorem operators_pointsTo (stage : Stage ProcCall) : PointsTo stage.spans stage.operators := by
  cases stage with
  | step call => exact call.operator?_pointsTo.bind (.pure _)
  | parallel branches span =>
      exact ((branchOperators_pointsTo branches).mono (List.subset_cons_self ..)).bind (.pure _)

/-- The errors of a chain point into its stages. -/
theorem chainOperators_pointsTo (stages : List (Stage ProcCall)) :
    PointsTo (chainSpans stages) (chainOperators stages) := by
  cases stages with
  | nil => exact .pure _
  | cons stage rest =>
      refine ((operators_pointsTo stage).mono (List.subset_append_left ..)).bind ?_
      exact ((chainOperators_pointsTo rest).mono (List.subset_append_right ..)).bind (.pure _)

/-- The errors of a block point into its branches. -/
theorem branchOperators_pointsTo (branches : List (Flow ProcCall)) :
    PointsTo (branchSpans branches) (branchOperators branches) := by
  cases branches with
  | nil => exact .pure _
  | cons flow rest =>
      obtain ⟨stages, span⟩ := flow
      have chain : chainSpans stages ⊆ branchSpans (⟨stages, span⟩ :: rest) :=
        List.subset_cons_of_subset _ (List.subset_append_left ..)
      have others : branchSpans rest ⊆ branchSpans (⟨stages, span⟩ :: rest) :=
        List.subset_cons_of_subset _ (List.subset_append_right ..)
      refine ((chainOperators_pointsTo stages).mono chain).bind ?_
      exact ((branchOperators_pointsTo rest).mono others).bind (.pure _)

end

mutual

/-- The places of a call are places of the stage that it stands in. -/
theorem call_spans_subset {stage : Stage ProcCall} {call : ProcCall} (member : call ∈ stage.steps) :
    call.spans ⊆ stage.spans := by
  cases stage with
  | step other => rw [List.mem_singleton.mp member]; exact List.Subset.refl _
  | parallel branches span => exact List.subset_cons_of_subset _ (call_spans_subset_branches member)

/-- The places of a call are places of the chain that it stands in. -/
theorem call_spans_subset_chain {stages : List (Stage ProcCall)} {call : ProcCall}
    (member : call ∈ chainSteps stages) : call.spans ⊆ chainSpans stages := by
  cases stages with
  | nil => cases member
  | cons stage rest =>
      rcases List.mem_append.mp member with here | later
      · exact List.subset_append_of_subset_left _ (call_spans_subset here)
      · exact List.subset_append_of_subset_right _ (call_spans_subset_chain later)

theorem call_spans_subset_branches {branches : List (Flow ProcCall)} {call : ProcCall}
    (member : call ∈ branchSteps branches) : call.spans ⊆ branchSpans branches := by
  cases branches with
  | nil => cases member
  | cons flow rest =>
      obtain ⟨stages, span⟩ := flow
      refine List.subset_cons_of_subset _ ?_
      rcases List.mem_append.mp member with here | later
      · exact List.subset_append_of_subset_left _ (call_spans_subset_chain here)
      · exact List.subset_append_of_subset_right _ (call_spans_subset_branches later)

end

end Stage

/-- The errors of single procs point to parts of the program. -/
theorem Program.operators_pointTo (program : Program) :
    PointsTo program.spans program.operators :=
  (Stage.branchOperators_pointsTo program.chains).mono (List.subset_cons_self ..)

/-- The operators of a program stand where its calls stand. -/
theorem span_mem_of_mem_operators {program : Program} {operator : Operator}
    (member : operator ∈ Stage.branchSteps program.operators.value) :
    operator.span ∈ program.spans := by
  have inCalls := (spans_operators_sublist program).subset (List.mem_map_of_mem member)
  obtain ⟨call, isCall, same⟩ := List.mem_map.mp inCalls
  rw [← same]
  exact List.mem_cons_of_mem _ (Stage.call_spans_subset_branches isCall call.span_mem_spans)

end Flowgraph
