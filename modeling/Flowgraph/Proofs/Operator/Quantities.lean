import Flowgraph.Proofs.Number.Nearest
import Flowgraph.Proofs.Operator.ReadBack

/-!
# Quantities of a program

A count or a duration that is written as a row of digits is stored as the number that they
denote if this has at most 53 significant bits, and otherwise as the nearest number that has.
A duration is rounded twice, as a count of its unit and as a count of milliseconds.
-/

namespace Flowgraph

open Number Text

/-! ## Values of a call -/

/--
The value that a call is given under the name of an option.  With `batch` it may also be
the first argument that says how long a window is, and with `head` and `tail` it is
the first argument that says how many points there are.
-/
inductive ProcCall.Supplies (call : ProcCall) : OptionTag → Expr → Prop
  | option {tag : OptionTag} {option : ProcOption} (member : option ∈ call.options)
      (named : option.name.name = tag.word) : call.Supplies tag option.value
  | interval {value : Expr} (isBatch : call.name.name = Proc.batch.name)
      (first : call.arguments.head? = some value) : call.Supplies .every value
  | count {value : Expr}
      (isPart : call.name.name = Proc.head.name ∨ call.name.name = Proc.tail.name)
      (first : call.arguments.head? = some value) : call.Supplies .limit value

/-- The value is of the kind that an option asks for. -/
def OptionTag.Accepts (value : Expr) : OptionTag → Prop
  | fromMoment | toMoment => ∃ moment, value.IsMoment moment
  | last | every => ∃ duration, value.IsInterval duration
  | limit => ∃ count, value.IsCount count

/-- Where no option is given twice, the value of each is what is said of its name. -/
theorem said_of_mem {α : Type} (read? : Expr → Option α) {options : List ProcOption}
    {option : ProcOption} (distinct : (options.map fun option => option.name.name).Nodup)
    (member : option ∈ options) :
    said read? option.name.name none options = read? option.value := by
  refine said_eq (fun other isOther same => ?_) fun _ => ⟨option, member, rfl⟩
  rw [List.inj_on_of_nodup_map distinct isOther member same]

namespace ProcCall

variable {call : ProcCall} {proc : Proc}

theorem tells_givenOptions (valid : call.ValidFor proc) {option : ProcOption} {tag : OptionTag}
    (member : option ∈ call.options) (named : option.name.name = tag.word) :
    tag.Tells call.givenOptions option.value := by
  have isSaid {α : Type} (read? : Expr → Option α) :
      read? option.value = said read? tag.word none call.options := by
    rw [← named, said_of_mem read? valid.distinct member]
  cases tag <;> exact isSaid _

theorem proc_eq_of_name {other : Proc} (isProc : proc.name = call.name.name)
    (named : call.name.name = other.name) : proc = other := by
  have found := ofName?_eq_some_iff.mpr (isProc.trans named)
  rw [Proc.ofName?_name, Option.some.injEq] at found
  exact found.symm

/-- A valid call is given values of the right kind. -/
theorem accepts_of_supplies (valid : call.ValidFor proc) (isProc : proc.name = call.name.name)
    {tag : OptionTag} {value : Expr} (supplied : call.Supplies tag value) : tag.Accepts value := by
  cases supplied with
  | option member named =>
      have typed := valid.typed _ member
      cases tag <;> simp only [ProcOption.WellTyped, named, OptionTag.word] at typed
      case fromMoment =>
        obtain ⟨moment, isMoment, -⟩ := typed
        exact ⟨moment, isMoment⟩
      all_goals exact typed
  | interval isBatch first =>
      obtain rfl := proc_eq_of_name isProc isBatch
      exact valid.meets.2 value first
  | count isPart first =>
      rcases isPart with isHead | isTail
      · obtain rfl := proc_eq_of_name isProc isHead
        exact valid.meets.2 value first
      · obtain rfl := proc_eq_of_name isProc isTail
        exact valid.meets.2 value first

/-- What a valid call is given is what the options of its operator say. -/
theorem tells_optionsFor (valid : call.ValidFor proc) (isProc : proc.name = call.name.name)
    {tag : OptionTag} {value : Expr} (supplied : call.Supplies tag value) :
    tag.Tells (call.optionsFor proc) value := by
  have accepts := accepts_of_supplies valid isProc supplied
  cases supplied with
  | option member named =>
      have given := tells_givenOptions valid member named
      cases proc with
      | batch =>
          cases tag with
          | every =>
              obtain ⟨duration, isInterval⟩ := accepts
              have found := Expr.positiveDuration?_eq_some_iff.mpr isInterval
              have isEvery : call.givenOptions.every = some duration := given.symm.trans found
              change _ = call.givenOptions.every.or _
              rw [found, isEvery, Option.some_or]
          | _ => exact given
      | head | tail =>
          have accepted := valid.accepted _ member
          cases accepted
      | _ => exact given
  | interval isBatch first =>
      obtain rfl := proc_eq_of_name isProc isBatch
      -- The option is not given as well.
      have absent : call.givenOptions.every = none := by
        refine said_of_forall_ne _ _ _ fun option member named => ?_
        have none := valid.meets.1.mp ⟨option, member, named⟩
        rw [none] at first
        cases first
      change _ = call.givenOptions.every.or _
      rw [absent, Option.none_or, first, Option.bind_some]
  | count isPart first =>
      obtain ⟨count, found⟩ := Expr.exists_count?_iff.mpr accepts
      have isLimit : (call.optionsFor proc).limit =
          some ((call.arguments.head?.bind Expr.count?).getD 1) := by
        rcases isPart.imp (proc_eq_of_name isProc) (proc_eq_of_name isProc) with rfl | rfl <;> rfl
      change _ = (call.optionsFor proc).limit
      rw [isLimit, first, Option.bind_some, found, Option.getD_some]

end ProcCall

/-- Where nothing is reported, each call has its operator at the same place among them. -/
theorem Program.exists_operator_of_call {program : Program}
    (clean : program.operators.diagnostics = []) {place : Nat} {call : ProcCall}
    (stands : (Stage.branchSteps program.chains)[place]? = some call) :
    ∃ proc operator, proc.name = call.name.name ∧ call.ValidFor proc ∧
      (Stage.branchSteps program.operators.value)[place]? = some operator ∧
      operator.options = call.optionsFor proc := by
  have quiet := (Stage.branchOperators_clean_iff program.chains).mp clean
  have valid : ∀ call ∈ Stage.branchSteps program.chains, call.Valid :=
    fun call member => (ProcCall.operator?_clean_iff call).mp (quiet call member)
  have shape : Stage.mapBranches some id program.operators.value =
      Stage.mapBranches ProcCall.meaning? id program.chains := by
    rw [operators, Stage.branchOperators_value]
    exact Stage.keepBranches_of_forall fun call member => (valid call member).exists_operator
  have steps := congrArg Stage.branchSteps shape
  rw [Stage.branchSteps_mapBranches, Stage.branchSteps_mapBranches] at steps
  obtain ⟨proc, isProc, isValid⟩ := valid call (List.mem_of_getElem? stands)
  have atPlace := congrArg (·[place]?) steps
  simp only [List.getElem?_map, stands, Option.map_some] at atPlace
  obtain ⟨operator, isOperator, means⟩ := Option.map_eq_some_iff.mp atPlace
  rw [ProcCall.meaning?, ProcCall.ofName?_eq_some_iff.mpr isProc, Option.map_some] at means
  obtain rfl := Option.some.inj means
  exact ⟨proc, _, isProc, isValid, isOperator, rfl⟩

/-! ## Numbers and their digits -/

/-- The value is a number that is written in the text as a row of digits and nothing else. -/
def Expr.IsNumeral (value : Expr) (text : List Char) (number : Nat) : Prop :=
  ∃ literal span digits, value = .number literal span ∧
    Text.slice? text span.start span.stop = some digits ∧ readNatural digits = some number

/-- The value is a row of digits and the name of a unit, maybe with blanks between them. -/
def Expr.IsNumeralOf (value : Expr) (number factor : Nat) : Prop :=
  ∃ digits blanks unit span, value = .moment (String.ofList (digits ++ blanks ++ unit)) span ∧
    readNatural digits = some number ∧ (∀ c ∈ blanks, isBlank c = true) ∧
    Duration.unitMilliseconds? (String.ofList unit) = some factor

/--
A word that is made of a number: the nearest number with at most 53 significant bits, if it
is a word.
-/
def IsWordOf (exact word : Nat) : Prop :=
  ∃ nearest, IsNearest exact nearest ∧ (nearest < 2 ^ 64 → word = nearest)

theorem IsWordOf.eq {exact word : Nat} (isWord : IsWordOf exact word)
    (significant : Significant exact) (fits : exact < 2 ^ 64) : word = exact := by
  obtain ⟨nearest, isNearest, same⟩ := isWord
  obtain rfl := isNearest.eq_of_significant significant
  exact same fits

namespace Number.Binary64

/-- A whole number is rounded before it is cast. -/
theorem isWordOf_toWord (number : Nat) :
    IsWordOf number (roundUnits false (number * unitsPerOne) 1).toWord.toNat := by
  refine ⟨roundOff number, isNearest_roundOff number, fun fits => ?_⟩
  have below := whole_lt_unitsLimit (Nat.le_of_lt fits)
  have atMost : min (roundOff number) (UInt64.size - 1) = roundOff number :=
    Nat.min_eq_left (Nat.le_sub_one_of_lt fits)
  rw [roundUnits_whole, if_pos below, toWord_whole, atMost, UInt64.toNat_ofNat']
  exact Nat.mod_eq_of_lt fits

theorem ofDecimal_whole (number : Nat) :
    ofDecimal false number 0 = roundUnits false (number * unitsPerOne) 1 := rfl

/-- A finite number from a row of digits is rounded once more when it is multiplied. -/
theorem isWordOf_scale {number : Nat} (finite : (ofDecimal false number 0).isFinite = true)
    (factor : Nat) :
    IsWordOf (roundOff number * factor) ((ofDecimal false number 0).scale factor).toWord.toNat := by
  rw [ofDecimal_whole, roundUnits_whole] at finite ⊢
  split_ifs at finite ⊢ with below
  · have units : roundOff number * unitsPerOne * factor =
        roundOff number * factor * unitsPerOne := Nat.mul_right_comm _ _ _
    rw [scale, units]
    exact isWordOf_toWord _
  · cases finite

end Number.Binary64

/-! ## Reading digits and units -/

theorem Duration.letters_of_unit {name : String} {factor : Nat}
    (isUnit : unitMilliseconds? name = some factor) :
    name.toList ≠ [] ∧ ∀ c ∈ name.toList, c.isAlpha = true := by
  suffices checked : (!name.toList.isEmpty && name.toList.all Char.isAlpha) = true by
    simpa using checked
  rw [unitMilliseconds?] at isUnit
  split_ifs at isUnit with names names names names names names names names
  all_goals
    simp only [List.mem_cons, List.not_mem_nil, or_false] at names
    rcases names with rfl | rfl | rfl <;> rfl

/-- A duration that is read from digits and a unit is the product, up to two roundings. -/
theorem Duration.isWordOf_read? {digits blanks unit : List Char} {number factor : Nat}
    {duration : Duration} (value : readNatural digits = some number)
    (blank : ∀ c ∈ blanks, isBlank c = true)
    (isUnit : unitMilliseconds? (String.ofList unit) = some factor)
    (found : read? (digits ++ blanks ++ unit) = some duration) :
    ∃ milliseconds, duration.nanoseconds = milliseconds * 10 ^ 6 ∧
      IsWordOf (roundOff number * factor) milliseconds := by
  obtain ⟨-, areDigits⟩ := isDigit_of_readNatural value
  obtain ⟨nonempty, letters⟩ := letters_of_unit isUnit
  rw [String.toList_ofList] at nonempty letters
  obtain ⟨letter, more, rfl⟩ := List.exists_cons_of_ne_nil nonempty
  have visible : ∀ c ∈ digits ++ letter :: more, isBlank c = false := by
    refine List.forall_mem_append.mpr ⟨fun c member => isBlank_of_isDigit (areDigits c member),
      fun c member => isBlank_of_isAlphanum ?_⟩
    rw [Char.isAlphanum, letters c member, Bool.true_or]
  rw [read?_append (fun c member => isAlpha_eq_false_of_isDigit (areDigits c member)) blank
    ⟨rfl, letters letter List.mem_cons_self⟩ visible (Binary64.read_digits value), ofUnits?, isUnit,
    Option.ite_none_right_eq_some, Bool.and_eq_true] at found
  obtain ⟨⟨finite, -⟩, same⟩ := found
  obtain rfl := Option.some.inj same
  exact ⟨_, rfl, Binary64.isWordOf_scale finite factor⟩

/-- A count that is read from digits is the number that they denote, rounded. -/
theorem Expr.isWordOf_count? {text : List Char} {value : Expr} {number : Nat} {count : UInt64}
    (isNumeral : value.IsNumeral text number)
    (stands : ∀ literal span, value = .number literal span →
      ⟨.number literal, span⟩ ∈ (lex text).tokens)
    (found : value.count? = some count) : IsWordOf number count.toNat := by
  obtain ⟨literal, span, digits, rfl, slice, denoted⟩ := isNumeral
  obtain ⟨written, sliceWritten, read⟩ := exists_slice_of_number (stands _ _ rfl)
  obtain rfl := Option.some.inj (slice.symm.trans sliceWritten)
  rw [Binary64.read_digits denoted] at read
  obtain rfl := Option.some.inj read
  simp only [count?, Option.ite_none_right_eq_some, Option.some.injEq] at found
  rw [← found.2]
  exact Binary64.isWordOf_toWord number

theorem ProcCall.Supplies.mem_values {call : ProcCall} {tag : OptionTag} {value : Expr}
    (supplied : call.Supplies tag value) : value ∈ call.values := by
  cases supplied with
  | option member named => exact List.mem_append_left _ (List.mem_map_of_mem member)
  | interval isBatch first => exact List.mem_append_right _ (List.mem_of_mem_head? first)
  | count isPart first => exact List.mem_append_right _ (List.mem_of_mem_head? first)

/-! ## Main result -/

/-- The duration that options have under a name. -/
def OperatorOptions.duration? (options : OperatorOptions) : OptionTag → Option Duration
  | .last => options.last
  | .every => options.every
  | .fromMoment | .toMoment | .limit => none

/-- The options have the counts and durations of a call, rounded as numbers of the format are. -/
structure OperatorOptions.Store (options : OperatorOptions) (text : List Char) (call : ProcCall) :
    Prop where
  counts : ∀ value number, call.Supplies .limit value → value.IsNumeral text number →
    ∃ count, options.limit = some count ∧ IsWordOf number count.toNat ∧
      (Significant number → number < 2 ^ 64 → count.toNat = number)
  durations : ∀ tag ∈ [OptionTag.last, OptionTag.every], ∀ value number factor,
    call.Supplies tag value → value.IsNumeralOf number factor →
      ∃ duration milliseconds units, options.duration? tag = some duration ∧
        duration.nanoseconds = milliseconds * 10 ^ 6 ∧
        IsNearest number units ∧ IsWordOf (units * factor) milliseconds ∧
        (Significant number → Significant (number * factor) → number * factor < 2 ^ 64 →
          milliseconds = number * factor)

theorem ProcCall.ValidFor.store {text : List Char} {call : ProcCall} {proc : Proc}
    (valid : call.ValidFor proc) (isProc : proc.name = call.name.name)
    (stands : ∀ literal span, .number literal span ∈ call.values →
      ⟨.number literal, span⟩ ∈ (lex text).tokens) :
    (call.optionsFor proc).Store text call where
  counts value number supplied isNumeral := by
    have tells := tells_optionsFor valid isProc supplied
    obtain ⟨count, found⟩ := Expr.exists_count?_iff.mpr (accepts_of_supplies valid isProc supplied)
    have isWord := Expr.isWordOf_count? isNumeral
      (fun literal span isNumber => stands literal span (isNumber ▸ supplied.mem_values)) found
    exact ⟨count, tells.symm.trans found, isWord, isWord.eq⟩
  durations tag isDuration value number factor supplied isNumeral := by
    have tells := tells_optionsFor valid isProc supplied
    have accepts := accepts_of_supplies valid isProc supplied
    obtain ⟨duration, ⟨text, span, isMoment, read, -⟩, stored⟩ : ∃ duration,
        value.IsInterval duration ∧ (call.optionsFor proc).duration? tag = some duration := by
      simp only [List.mem_cons, List.not_mem_nil, or_false] at isDuration
      rcases isDuration with rfl | rfl
      all_goals
        obtain ⟨duration, isInterval⟩ := accepts
        exact ⟨duration, isInterval,
          tells.symm.trans (Expr.positiveDuration?_eq_some_iff.mpr isInterval)⟩
    obtain ⟨digits, blanks, unit, place, isWritten, denoted, blank, isUnit⟩ := isNumeral
    obtain ⟨rfl, rfl⟩ := Expr.moment.inj (isMoment.symm.trans isWritten)
    rw [String.toList_ofList] at read
    obtain ⟨milliseconds, length, isWord⟩ := Duration.isWordOf_read? denoted blank isUnit read
    refine ⟨duration, milliseconds, roundOff number, stored, length, isNearest_roundOff number,
      isWord, fun significant product fits => ?_⟩
    rw [roundOff_of_significant significant] at isWord
    exact isWord.eq product fits

/--
In a program that is turned into operators without an error, each call has its operator at the
same place.  Every count that the call is given in digits is the limit of the operator,
rounded to the nearest number with at most 53 significant bits.  Every stretch of time and
every window is its number of milliseconds, which is rounded like this twice: the count of
units, and its product with the length of the unit.  So whatever has so few bits is kept.
-/
theorem quantities_nearest {text : List Char} {program : Program}
    (parsed : (parse text).program = some program) (clean : program.operators.diagnostics = [])
    {place : Nat} {call : ProcCall}
    (stands : (Stage.branchSteps program.chains)[place]? = some call) :
    ∃ operator, (Stage.branchSteps program.operators.value)[place]? = some operator ∧
      operator.options.Store text call := by
  obtain ⟨proc, operator, isProc, valid, isOperator, isOptions⟩ :=
    program.exists_operator_of_call clean stands
  refine ⟨operator, isOperator, ?_⟩
  rw [isOptions]
  exact valid.store isProc fun literal span isValue =>
    number_mem_tokens_of_parse parsed (List.mem_of_getElem? stands) isValue

/-- The first number above `2 ^ 53` that is odd, as a count. -/
def oddCountText : List Char :=
  "emit | head 9007199254740993".toList

/-- The place of a number. -/
def Expr.numberSpan? : Expr → Option Span
  | .number _ span => some span
  | _ => none

/-- The program is turned into operators without an error, and has the number as a count. -/
theorem exists_oddCount :
    ∃ program call value, (parse oddCountText).program = some program ∧
      program.operators.diagnostics = [] ∧
      (Stage.branchSteps program.chains)[1]? = some call ∧ call.Supplies .limit value ∧
      value.IsNumeral oddCountText 9007199254740993 := by
  have evaluated : ((parse oddCountText).program.map fun program =>
      (program.operators.diagnostics.isEmpty, (Stage.branchSteps program.chains)[1]?.map fun call =>
        (call.name.name, call.arguments.map Expr.numberSpan?))) =
      some (true, some ("head", [some ⟨12, 28⟩])) := by
    decide +kernel
  obtain ⟨program, parsed, facts⟩ := Option.map_eq_some_iff.mp evaluated
  simp only [Prod.mk.injEq, List.isEmpty_iff, Option.map_eq_some_iff] at facts
  obtain ⟨clean, call, stands, isHead, arguments⟩ := facts
  obtain ⟨value, others, split, isNumber, -⟩ := List.map_eq_cons_iff.mp arguments
  have first : call.arguments.head? = some value := by rw [split, List.head?_cons]
  refine ⟨program, call, value, parsed, clean, stands, .count (.inl isHead) first, ?_⟩
  cases value <;> cases isNumber
  exact ⟨_, _, "9007199254740993".toList, rfl, by decide +kernel, by decide +kernel⟩

/-- Of the two even numbers around the count the one below it is stored. -/
theorem quantities_nearest_oddCount :
    ∃ program operator, (parse oddCountText).program = some program ∧
      program.operators.diagnostics = [] ∧
      (Stage.branchSteps program.operators.value)[1]? = some operator ∧
      operator.options.limit = some 9007199254740992 := by
  obtain ⟨program, call, value, parsed, clean, stands, supplied, isNumeral⟩ := exists_oddCount
  obtain ⟨operator, isOperator, store⟩ := quantities_nearest parsed clean stands
  obtain ⟨count, isLimit, ⟨nearest, isNearest, word⟩, -⟩ := store.counts value _ supplied isNumeral
  have rounded : nearest = 9007199254740992 :=
    (isNearest.unique (isNearest_roundOff _)).trans (by decide +kernel)
  refine ⟨program, operator, parsed, clean, isOperator, ?_⟩
  rw [isLimit, Option.some.injEq, ← UInt64.toNat_inj, word (by omega), rounded]
  rfl

/-- The count is not stored exactly, and nothing is reported about it. -/
theorem quantities_not_exact :
    ¬ ∀ (text : List Char) (program : Program) (place : Nat) (call : ProcCall)
      (operator : Operator) (value : Expr) (number : Nat),
      (parse text).program = some program → program.operators.diagnostics = [] →
      (Stage.branchSteps program.chains)[place]? = some call →
      (Stage.branchSteps program.operators.value)[place]? = some operator →
      call.Supplies .limit value → value.IsNumeral text number →
      operator.options.limit.map UInt64.toNat = some number := by
  intro exact
  obtain ⟨program, call, value, parsed, clean, stands, supplied, isNumeral⟩ := exists_oddCount
  have evaluated : ((parse oddCountText).program.map fun program =>
      (Stage.branchSteps program.operators.value)[1]?.map fun operator =>
        operator.options.limit) = some (some (some 9007199254740992)) := by
    decide +kernel
  rw [parsed, Option.map_some, Option.some.injEq] at evaluated
  obtain ⟨operator, isOperator, isLimit⟩ := Option.map_eq_some_iff.mp evaluated
  have same := exact _ _ _ _ _ _ _ parsed clean stands isOperator supplied isNumeral
  rw [isLimit] at same
  exact absurd same (by decide)

end Flowgraph
