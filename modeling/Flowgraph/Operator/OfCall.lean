import Flowgraph.Checked
import Flowgraph.Operator.Basic
import Flowgraph.Proc
import Flowgraph.Program

/-!
# From calls to operators

Every call of a program is checked against the rules of its proc, and its
options get typed values.  A call of a proc that does not exist is left out; any
other call becomes an operator even if it has errors.

The errors of a call come in this order: the names of its options, its
arguments, the values of its options, options that exclude each other, and last
what its proc asks for in particular.
-/

namespace Flowgraph

namespace Expr

/-- The moment that a literal denotes. -/
def moment? : Expr → Option Moment
  | moment text _ => Moment.read? text.toList
  | _ => none

/-- The duration that a literal denotes, if it has any length. -/
def positiveDuration? : Expr → Option Duration
  | moment text _ => (Duration.read? text.toList).filter fun duration => !duration.isZero
  | _ => none

/-- The natural number that a literal denotes; one above 64 bits counts as the largest. -/
def count? : Expr → Option UInt64
  | number value _ =>
      if !value.isBelowZero && value.isWhole then some value.toWord else none
  | _ => none

/-- Whether the value is a given name. -/
def isName (name : String) : Expr → Bool
  | ident found => found.name == name
  | _ => false

end Expr

/-- A name as messages show it. -/
def quotedName (name : String) : String :=
  "`" ++ name ++ "`"

namespace ProcCall

/-! ## Names of options and arguments -/

/-- No option is given twice, and each is accepted; `seen` lists the names before. -/
def checkOptionNames (proc : Proc) (seen : List String) : List ProcOption → Checked Unit
  | [] => pure ()
  | option :: rest => do
      let name := option.name.name
      if name ∈ seen then
        .error .duplicateOption option.span
          (quotedName proc.name ++ ": option -" ++ name ++ " given more than once")
      else
        .errorIf (proc.acceptedOptions.contains name = false) .unknownOption option.name.span
          (quotedName proc.name ++ " does not accept option -" ++ name)
      checkOptionNames proc (name :: seen) rest

/-- The arguments are as the proc demands. -/
def checkArguments (proc : Proc) (call : ProcCall) : Checked Unit :=
  match proc.argumentRule, call.arguments with
  | .required what, [] =>
      .error .missingArgument call.span (quotedName proc.name ++ " requires " ++ what)
  | .refused, first :: _ =>
      .error .invalidArgument first.span (quotedName proc.name ++ " takes no arguments")
  | _, _ => pure ()

/-! ## Values of options -/

/-- The moment that an option is given. -/
def momentValue (proc : Proc) (option : ProcOption) : Checked (Option Moment) :=
  match option.value.moment? with
  | some moment => pure (some moment)
  | none =>
      .missing .invalidOptionValue option.value.span
        (quotedName proc.name ++ ": -" ++ option.name.name ++ " expects a moment such as :now:")

/-- The duration that an option or an argument is given; `what` names it. -/
def durationValue (proc : Proc) (what : String) (value : Expr) : Checked (Option Duration) :=
  match value.positiveDuration? with
  | some duration => pure (some duration)
  | none =>
      .missing .invalidOptionValue value.span
        (quotedName proc.name ++ ": " ++ what ++ " expects a positive duration such as :1s:")

/-- The count that `-limit` is given. -/
def limitValue (proc : Proc) (value : Expr) : Checked (Option UInt64) :=
  match value.count? with
  | some count => pure (some count)
  | none =>
      .missing .invalidOptionValue value.span
        (quotedName proc.name ++ ": -limit expects a non-negative integer")

/-- The options with the value of one more option; options of other names are passed over. -/
def addOption (proc : Proc) (options : OperatorOptions) (option : ProcOption) :
    Checked OperatorOptions :=
  match option.name.name with
  | "from" => do
      let moment ← momentValue proc option
      .errorIf (moment = some .endOfTime) .invalidOptionValue option.value.span
        (quotedName proc.name ++ ": -from cannot be :end:")
      return { options with fromMoment := moment }
  | "to" => do return { options with toMoment := ← momentValue proc option }
  | "last" => do return { options with last := ← durationValue proc "-last" option.value }
  | "every" => do return { options with every := ← durationValue proc "-every" option.value }
  | "limit" => do return { options with limit := ← limitValue proc option.value }
  | _ => pure options

/-- The options with the values of all given options; of two alike the last counts. -/
def addOptions (proc : Proc) (options : OperatorOptions) :
    List ProcOption → Checked OperatorOptions
  | [] => pure options
  | option :: rest => do addOptions proc (← addOption proc options option) rest

/-- A trailing stretch of time has no other bounds. -/
def checkTrailing (proc : Proc) (call : ProcCall) (options : OperatorOptions) : Checked Unit :=
  .errorIf (options.last.isSome ∧ (options.fromMoment.isSome ∨ options.toMoment.isSome))
    .incompatibleOptions
    (match call.option? "last" with
      | some option => option.span
      | none => call.span)
    (quotedName proc.name ++ ": -last cannot be combined with -from or -to")

/-! ## What single procs ask for -/

/-- The options of `batch`: the interval is given once, by `-every` or as an argument. -/
def addInterval (proc : Proc) (call : ProcCall) (options : OperatorOptions) :
    Checked OperatorOptions :=
  match call.arguments, options.every with
  | argument :: _, some _ => do
      .error .incompatibleOptions argument.span
        "batch interval given both positionally and with -every"
      return options
  | argument :: _, none => do
      return { options with every := ← durationValue proc "interval" argument }
  | [], some _ => pure options
  | [], none => do
      .error .missingOption call.span
        "batch requires an interval (`batch :1s:` or `batch -every :1s:`)"
      return options

/-- The count of `head` and `tail`: one if none is given. -/
def countArgument (proc : Proc) (call : ProcCall) : Checked UInt64 :=
  match call.arguments with
  | [] => pure 1
  | first :: others => do
      match others with
        | extra :: _ =>
            Checked.error .invalidArgument extra.span
              (quotedName proc.name ++ " takes at most one argument")
        | [] => pure ()
      match first.count? with
        | some count => return count
        | none => do
            .error .invalidArgument first.span
              (quotedName proc.name ++ " count must be a non-negative integer")
            return 1

/-- A view of a file says which file it writes. -/
def checkFileView (call : ProcCall) : Checked Unit :=
  .errorIf ((call.arguments.head?.map (Expr.isName "file")) = some true ∧
      (call.option? "filename").isNone)
    .missingOption call.span "File views require a -filename argument"

/-- The kind of the operator, and its options with what the arguments add to them. -/
def kindAndOptions (proc : Proc) (call : ProcCall) (options : OperatorOptions) :
    Checked (OperatorKind × OperatorOptions) :=
  match proc with
  | .read | .emit => pure (.source, options)
  | .batch => do return (.windowedAggregate, ← addInterval proc call options)
  | .reduce => do
      .errorIf ((call.option? "over").isSome ∧ options.every.isNone) .missingOption call.span
        "reduce -over requires -every"
      return (if options.every.isSome then .periodicAggregate else .aggregate, options)
  | .sort => pure (.sort, options)
  | .head => do return (.head, { options with limit := some (← countArgument proc call) })
  | .tail => do return (.tail, { options with limit := some (← countArgument proc call) })
  | .unbatch => pure (.unbatch, options)
  | .merge => pure (.merge, options)
  | .view | .write => do
      checkFileView call
      return (.sink, options)
  | .put | .filter | .keep | .remove | .uniq | .pass => pure (.passThrough, options)

/-- The operator of a call of a known proc. -/
def operatorOf (proc : Proc) (call : ProcCall) : Checked Operator := do
  checkOptionNames proc [] call.options
  checkArguments proc call
  let given ← addOptions proc {} call.options
  checkTrailing proc call given
  let (kind, options) ← kindAndOptions proc call given
  return { name := proc.name, kind, options, span := call.span }

/-- The operator of a call, if its proc exists. -/
def operator? (call : ProcCall) : Checked (Option Operator) :=
  match Proc.ofName? call.name.name with
  | some proc => do return some (← operatorOf proc call)
  | none =>
      .missing .unknownProc call.name.span ("unknown proc " ++ quotedName call.name.name)

end ProcCall

namespace Stage

mutual

/-- The stage with operators for calls; there is none for a call without an operator. -/
def operators : Stage ProcCall → Checked (List (Stage Operator))
  | step call => do
      let operator ← call.operator?
      return (operator.map step).toList
  | parallel branches span => do
      let block ← branchOperators branches
      return [parallel block span]

/-- Stages that follow each other, with operators for calls. -/
def chainOperators : List (Stage ProcCall) → Checked (List (Stage Operator))
  | [] => pure []
  | stage :: rest => do
      let first ← stage.operators
      let others ← chainOperators rest
      return first ++ others

/-- Chains side by side, with operators for calls. -/
def branchOperators : List (Flow ProcCall) → Checked (List (Flow Operator))
  | [] => pure []
  | ⟨stages, span⟩ :: rest => do
      let chain ← chainOperators stages
      let others ← branchOperators rest
      return ⟨chain, span⟩ :: others

end

end Stage

/-- The operators of a program, in chains and blocks of the same shape. -/
def Program.operators (program : Program) : Checked (List (Flow Operator)) :=
  Stage.branchOperators program.chains

end Flowgraph
