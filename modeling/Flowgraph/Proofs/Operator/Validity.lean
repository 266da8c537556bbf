import Flowgraph.Proofs.Operator.Relocation

/-!
# Valid calls

What a proc call has to satisfy is stated here call by call, without regard to the order in
which the checks are made or to what they do after an error (`ProcCall.ValidFor`).  Each
check is then compared with its part of that statement, and together they report nothing
exactly when a call is valid (`ProcCall.operatorOf_clean_iff`).

The operator of a valid call is described by itself as well (`ProcCall.meaning?`): it has the
name and the place of the call, the kind of its proc, and the options as their values say.
The operators of a program stand in chains and blocks of the same shape as its calls.
-/

namespace Flowgraph

/-! ## Values -/

/-- The number is a natural number; zero may have a sign. -/
def Number.Binary64.Is (value : Number.Binary64) (count : Nat) : Prop :=
  ∃ negative, value = .finite negative (count * unitsPerOne) ∧ (negative = true → count = 0)

/-- A number stands for a count exactly if it is whole and not negative. -/
theorem Number.Binary64.exists_is_iff (value : Number.Binary64) :
    (∃ count, value.Is count) ↔ value.isBelowZero = false ∧ value.isWhole = true := by
  cases value with
  | infinite negative => simp [Is, isWhole]
  | finite negative units =>
      simp only [Is, isWhole, isBelowZero, beq_iff_eq, Bool.and_eq_false_iff, bne_eq_false_iff_eq]
      -- The number of units in one is too large to be looked into.
      generalize unitsPerOne = one
      constructor
      · rintro ⟨count, sign, same, zero⟩
        obtain ⟨rfl, rfl⟩ := Binary64.finite.inj same
        refine ⟨?_, Nat.mul_mod_left _ _⟩
        cases negative with
        | false => exact .inl rfl
        | true => exact .inr (by rw [zero rfl, Nat.zero_mul])
      · rintro ⟨sign, whole⟩
        refine ⟨units / one, negative, ?_, ?_⟩
        · rw [Nat.div_mul_cancel (Nat.dvd_of_mod_eq_zero whole)]
        · rintro rfl
          rw [sign.resolve_left (by decide), Nat.zero_div]

namespace Expr

/-- A literal that denotes a moment. -/
def IsMoment (value : Expr) (moment : Moment) : Prop :=
  ∃ text span, value = .moment text span ∧ Moment.read? text.toList = some moment

/-- A literal that denotes a duration with some length. -/
def IsInterval (value : Expr) (duration : Duration) : Prop :=
  ∃ text span, value = .moment text span ∧ Duration.read? text.toList = some duration ∧
    duration.nanoseconds ≠ 0

/-- A literal that denotes a natural number. -/
def IsCount (value : Expr) (count : Nat) : Prop :=
  ∃ literal span, value = .number literal span ∧ literal.Is count

/-- A value is read as a moment exactly if it is that moment. -/
theorem moment?_eq_some_iff {value : Expr} {moment : Moment} :
    value.moment? = some moment ↔ value.IsMoment moment := by
  cases value <;> simp [moment?, IsMoment]

/-- A value is read as a duration exactly if it is that interval, which is not empty. -/
theorem positiveDuration?_eq_some_iff {value : Expr} {duration : Duration} :
    value.positiveDuration? = some duration ↔ value.IsInterval duration := by
  cases value <;>
    simp [positiveDuration?, IsInterval, Option.filter_eq_some_iff, Duration.isZero]

/-- A value is read as a count exactly if it stands for one. -/
theorem exists_count?_iff {value : Expr} :
    (∃ count, value.count? = some count) ↔ ∃ count, value.IsCount count := by
  cases value with
  | number literal span =>
      have natural : (∃ count, (number literal span).IsCount count) ↔
          ∃ count, literal.Is count := by
        simp [IsCount]
      rw [natural, literal.exists_is_iff, count?]
      cases literal.isBelowZero <;> cases literal.isWhole <;> simp
  | _ => simp [count?, IsCount]

end Expr

/-! ## Options -/

/-- The value of an option is of the kind that its name asks for; other options have any value. -/
def ProcOption.WellTyped (option : ProcOption) : Prop :=
  match option.name.name with
  | "from" => ∃ moment, option.value.IsMoment moment ∧ moment ≠ .endOfTime
  | "to" => ∃ moment, option.value.IsMoment moment
  | "last" | "every" => ∃ duration, option.value.IsInterval duration
  | "limit" => ∃ count, option.value.IsCount count
  | _ => True

/-- What the first option with a name says, or else what is said otherwise. -/
def said {α : Type} (read? : Expr → Option α) (name : String) (otherwise : Option α)
    (options : List ProcOption) : Option α :=
  match options.find? fun option => option.name.name == name with
  | some option => read? option.value
  | none => otherwise

section Said

variable {α : Type} (read? : Expr → Option α) (name : String) (otherwise : Option α)

/-- The first option of the name decides what is said of it. -/
theorem said_cons (option : ProcOption) (rest : List ProcOption) :
    said read? name otherwise (option :: rest) =
      if option.name.name = name then read? option.value else said read? name otherwise rest := by
  by_cases same : option.name.name = name <;> simp [said, same]

/-- Where no option has the name, it is as said otherwise. -/
theorem said_of_forall_ne {options : List ProcOption}
    (other : ∀ option ∈ options, option.name.name ≠ name) :
    said read? name otherwise options = otherwise := by
  have none : options.find? (fun option => option.name.name == name) = none := by
    simpa using other
  rw [said, none]

end Said

section Said

variable {α : Type} {read? : Expr → Option α} {name : String} {options : List ProcOption}

/-- What is said of a name is the value of an option with that name. -/
theorem exists_of_said {value : α} (found : said read? name none options = some value) :
    ∃ option ∈ options, option.name.name = name ∧ read? option.value = some value := by
  rw [said] at found
  cases first : options.find? fun option => option.name.name == name with
  | none => simp [first] at found
  | some option =>
      simp only [first] at found
      have named : option.name.name = name := by simpa using List.find?_some first
      exact ⟨option, List.mem_of_find?_eq_some first, named, found⟩

/-- What all options of a name say is said of the name; if it is a value, one must be given. -/
theorem said_eq {expected : Option α}
    (tells : ∀ option ∈ options, option.name.name = name → read? option.value = expected)
    (given : expected.isSome → ∃ option ∈ options, option.name.name = name) :
    said read? name none options = expected := by
  rw [said]
  cases found : options.find? fun option => option.name.name == name with
  | some option =>
      exact tells option (List.mem_of_find?_eq_some found) (by simpa using List.find?_some found)
  | none =>
      cases expected with
      | none => rfl
      | some value =>
          obtain ⟨option, member, named⟩ := given rfl
          have absent := List.find?_eq_none.mp found option member
          simp [named] at absent

end Said

namespace ProcCall

theorem momentValue_value (proc : Proc) (option : ProcOption) :
    (momentValue proc option).value = option.value.moment? := by
  rw [momentValue]
  cases option.value.moment? <;> rfl

theorem momentValue_clean_iff (proc : Proc) (option : ProcOption) :
    (momentValue proc option).diagnostics = [] ↔ ∃ moment, option.value.IsMoment moment := by
  simp only [← Expr.moment?_eq_some_iff, momentValue]
  cases option.value.moment? <;> simp [Checked.missing]

theorem durationValue_value (proc : Proc) (what : String) (value : Expr) :
    (durationValue proc what value).value = value.positiveDuration? := by
  rw [durationValue]
  cases value.positiveDuration? <;> rfl

theorem durationValue_clean_iff (proc : Proc) (what : String) (value : Expr) :
    (durationValue proc what value).diagnostics = [] ↔
      ∃ duration, value.IsInterval duration := by
  simp only [← Expr.positiveDuration?_eq_some_iff, durationValue]
  cases value.positiveDuration? <;> simp [Checked.missing]

theorem limitValue_value (proc : Proc) (value : Expr) :
    (limitValue proc value).value = value.count? := by
  rw [limitValue]
  cases value.count? <;> rfl

theorem limitValue_clean_iff (proc : Proc) (value : Expr) :
    (limitValue proc value).diagnostics = [] ↔ ∃ count, value.IsCount count := by
  rw [← Expr.exists_count?_iff, limitValue]
  cases value.count? <;> simp [Checked.missing]

/-- One option sets the value of its name and no other. -/
theorem addOption_value (proc : Proc) (options : OperatorOptions) (option : ProcOption) :
    (addOption proc options option).value =
      { fromMoment := if option.name.name = "from" then option.value.moment?
          else options.fromMoment
        toMoment := if option.name.name = "to" then option.value.moment? else options.toMoment
        last := if option.name.name = "last" then option.value.positiveDuration? else options.last
        every := if option.name.name = "every" then option.value.positiveDuration?
          else options.every
        limit := if option.name.name = "limit" then option.value.count? else options.limit } := by
  simp only [addOption]
  split <;>
    simp_all [momentValue_value, durationValue_value, limitValue_value]

/-- An option is taken without an error exactly if its value has the type of its name. -/
theorem addOption_clean_iff (proc : Proc) (options : OperatorOptions) (option : ProcOption) :
    (addOption proc options option).diagnostics = [] ↔ option.WellTyped := by
  simp only [addOption]
  split
  case h_1 _ named =>
    simp only [ProcOption.WellTyped, named, Checked.diagnostics_bind, Checked.diagnostics_pure,
      List.append_nil, List.append_eq_nil_iff, momentValue_clean_iff,
      Checked.diagnostics_errorIf_eq_nil_iff, momentValue_value, ← Expr.moment?_eq_some_iff]
    cases option.value.moment? <;> simp
  case h_2 _ named => simp [ProcOption.WellTyped, named, momentValue_clean_iff]
  case h_3 _ named => simp [ProcOption.WellTyped, named, durationValue_clean_iff]
  case h_4 _ named => simp [ProcOption.WellTyped, named, durationValue_clean_iff]
  case h_5 _ named => simp [ProcOption.WellTyped, named, limitValue_clean_iff]
  case h_6 => simp [ProcOption.WellTyped]

/-- Options with different names set what the first option of each name says. -/
theorem addOptions_value (proc : Proc) (start : OperatorOptions) {options : List ProcOption}
    (distinct : (options.map fun option => option.name.name).Nodup) :
    (addOptions proc start options).value =
      { fromMoment := said Expr.moment? "from" start.fromMoment options
        toMoment := said Expr.moment? "to" start.toMoment options
        last := said Expr.positiveDuration? "last" start.last options
        every := said Expr.positiveDuration? "every" start.every options
        limit := said Expr.count? "limit" start.limit options } := by
  induction options generalizing start with
  | nil => rfl
  | cons option rest ih =>
      obtain ⟨absent, distinctRest⟩ := List.nodup_cons.mp distinct
      -- The options behind do not say again what this one says.
      have once : ∀ {α : Type} (read? : Expr → Option α) (name : String) (otherwise : Option α),
          said read? name (if option.name.name = name then read? option.value else otherwise) rest =
            said read? name otherwise (option :: rest) := by
        intro α read? name otherwise
        rw [said_cons]
        split_ifs with same
        · refine said_of_forall_ne read? name _ fun other member named => absent ?_
          exact List.mem_map.mpr ⟨other, member, named.trans same.symm⟩
        · rfl
      rw [addOptions, Checked.value_bind, ih _ distinctRest, addOption_value]
      simp only [once]

/-- Options are taken without an error exactly if each of them is well typed. -/
theorem addOptions_clean_iff (proc : Proc) (start : OperatorOptions) (options : List ProcOption) :
    (addOptions proc start options).diagnostics = [] ↔
      ∀ option ∈ options, option.WellTyped := by
  induction options generalizing start with
  | nil => simp [addOptions]
  | cons option rest ih =>
      rw [addOptions, Checked.diagnostics_bind, List.append_eq_nil_iff, addOption_clean_iff, ih,
        List.forall_mem_cons]

end ProcCall

/-! ## Valid calls -/

/-- Whether arguments are as a rule demands. -/
def ArgumentRule.Admits (arguments : List Expr) : ArgumentRule → Prop
  | refused => arguments = []
  | optional => True
  | required _ => arguments ≠ []

namespace ProcCall

/-- An option with a name is given. -/
def Gives (call : ProcCall) (name : String) : Prop :=
  ∃ option ∈ call.options, option.name.name = name

/-- What single procs ask for. -/
def Meets (call : ProcCall) : Proc → Prop
  | .batch =>
      -- The interval is given by the option or by an argument, and not by both.
      (call.Gives "every" ↔ call.arguments = []) ∧
        ∀ first ∈ call.arguments.head?, ∃ duration, first.IsInterval duration
  | .reduce => call.Gives "over" → call.Gives "every"
  | .head | .tail =>
      call.arguments.length ≤ 1 ∧ ∀ first ∈ call.arguments.head?, ∃ count, first.IsCount count
  | .view | .write =>
      (∃ span, .ident ⟨"file", span⟩ ∈ call.arguments.head?) → call.Gives "filename"
  | .read | .emit | .sort | .unbatch | .merge | .put | .filter | .keep | .remove | .uniq
  | .pass => True

/-- A call that satisfies everything that is asked of calls of a proc. -/
structure ValidFor (call : ProcCall) (proc : Proc) : Prop where
  distinct : (call.options.map fun option => option.name.name).Nodup
  accepted : ∀ option ∈ call.options, proc.acceptedOptions.contains option.name.name = true
  arguments : proc.argumentRule.Admits call.arguments
  typed : ∀ option ∈ call.options, option.WellTyped
  trailing : call.Gives "last" → ¬ call.Gives "from" ∧ ¬ call.Gives "to"
  meets : call.Meets proc

/-- A call of a known proc that satisfies everything that is asked of it. -/
def Valid (call : ProcCall) : Prop :=
  ∃ proc : Proc, proc.name = call.name.name ∧ call.ValidFor proc

/-! ## Each check and what it checks -/

/-- The names of options pass if they are new, differ and belong to the operator. -/
theorem checkOptionNames_clean_iff (proc : Proc) (seen : List String) (options : List ProcOption) :
    (checkOptionNames proc seen options).diagnostics = [] ↔
      (∀ option ∈ options, option.name.name ∉ seen) ∧
        (options.map fun option => option.name.name).Nodup ∧
        ∀ option ∈ options, proc.acceptedOptions.contains option.name.name = true := by
  induction options generalizing seen with
  | nil => simp [checkOptionNames]
  | cons option rest ih =>
      have step : (checkOptionNames proc seen (option :: rest)).diagnostics = [] ↔
          option.name.name ∉ seen ∧ proc.acceptedOptions.contains option.name.name = true ∧
            (checkOptionNames proc (option.name.name :: seen) rest).diagnostics = [] := by
        by_cases given : option.name.name ∈ seen
        · simp [checkOptionNames, given, Checked.error]
        · simp [checkOptionNames, given, Checked.diagnostics_errorIf_eq_nil_iff]
      rw [step, ih, List.forall_mem_cons, List.forall_mem_cons, List.map_cons, List.nodup_cons]
      simp only [List.mem_cons, not_or, List.mem_map, not_exists, not_and]
      constructor
      · rintro ⟨fresh, isAccepted, others, distinct, accepted⟩
        exact ⟨⟨fresh, fun other member => (others other member).2⟩,
          ⟨fun other member => (others other member).1, distinct⟩, isAccepted, accepted⟩
      · rintro ⟨⟨fresh, others⟩, ⟨absent, distinct⟩, isAccepted, accepted⟩
        exact ⟨fresh, isAccepted, fun other member => ⟨absent other member, others other member⟩,
          distinct, accepted⟩

/-- The arguments pass exactly if the rule of the operator admits them. -/
theorem checkArguments_clean_iff (proc : Proc) (call : ProcCall) :
    (checkArguments proc call).diagnostics = [] ↔ proc.argumentRule.Admits call.arguments := by
  rw [checkArguments]
  cases proc.argumentRule <;> cases call.arguments <;> simp [ArgumentRule.Admits, Checked.error]

/-- A call gives an option exactly if the option is found among its own. -/
theorem gives_iff (call : ProcCall) (name : String) :
    call.Gives name ↔ (call.option? name).isSome = true := by
  simp [Gives, option?]

/-- Where the values of a name are read, one is said exactly if the name is given. -/
theorem isSome_said_iff {α : Type} {read? : Expr → Option α} {call : ProcCall} {name : String}
    (reads : ∀ option ∈ call.options, option.name.name = name → (read? option.value).isSome) :
    (said read? name none call.options).isSome = true ↔ call.Gives name := by
  rw [gives_iff, option?, said]
  cases found : call.options.find? fun option => option.name.name == name with
  | none => simp
  | some option =>
      have named : option.name.name = name := by simpa using List.find?_some found
      simpa using reads option (List.mem_of_find?_eq_some found) named

/-- A batch has its interval exactly if the call meets what a batch asks for. -/
theorem addInterval_clean_iff {proc : Proc} {call : ProcCall} {options : OperatorOptions}
    (every : options.every.isSome = true ↔ call.Gives "every") :
    (addInterval proc call options).diagnostics = [] ↔ call.Meets .batch := by
  simp only [Meets, ← every, addInterval]
  cases call.arguments <;> cases options.every <;>
    simp [Checked.error, durationValue_clean_iff]

/-- A count is taken without an error if there is at most one argument and it is a count. -/
theorem countArgument_clean_iff (proc : Proc) (call : ProcCall) :
    (countArgument proc call).diagnostics = [] ↔
      call.arguments.length ≤ 1 ∧
        ∀ first ∈ call.arguments.head?, ∃ count, first.IsCount count := by
  simp only [← Expr.exists_count?_iff, countArgument]
  cases call.arguments with
  | nil => simp
  | cons first others =>
      cases count : first.count? <;> cases others <;> simp [Checked.error, count]

/-- A view into a file passes exactly if a file name is given with it. -/
theorem checkFileView_clean_iff (call : ProcCall) :
    (checkFileView call).diagnostics = [] ↔
      ((∃ span, .ident ⟨"file", span⟩ ∈ call.arguments.head?) → call.Gives "filename") := by
  have named : (call.arguments.head?.map (Expr.isName "file") = some true) ↔
      ∃ span, .ident ⟨"file", span⟩ ∈ call.arguments.head? := by
    cases call.arguments with
    | nil => simp
    | cons first others =>
        cases first with
        | ident found =>
            obtain ⟨name, span⟩ := found
            simp [Expr.isName]
        | _ => simp [Expr.isName]
  rw [checkFileView, Checked.diagnostics_errorIf_eq_nil_iff, named, gives_iff, not_and,
    Option.isNone_iff_eq_none, ← ne_eq, Option.ne_none_iff_isSome]

/-- The kind of an operator is found without an error exactly if its call meets what it asks for. -/
theorem kindAndOptions_clean_iff {proc : Proc} {call : ProcCall} {options : OperatorOptions}
    (every : options.every.isSome = true ↔ call.Gives "every") :
    (kindAndOptions proc call options).diagnostics = [] ↔ call.Meets proc := by
  cases proc with
  | batch => simp [kindAndOptions, addInterval_clean_iff every]
  | reduce =>
      simp only [kindAndOptions, Checked.diagnostics_bind, Checked.diagnostics_pure,
        List.append_nil, Checked.diagnostics_errorIf_eq_nil_iff, Meets, ← every, gives_iff]
      cases options.every <;> simp
  | head | tail => simp [kindAndOptions, countArgument_clean_iff, Meets]
  | view | write => simp [kindAndOptions, checkFileView_clean_iff, Meets]
  | _ => simp [kindAndOptions, Meets]

/-- The options of a call have a value exactly where they are given. -/
theorem isSome_addOptions_iff (proc : Proc) {call : ProcCall}
    (distinct : (call.options.map fun option => option.name.name).Nodup)
    (typed : ∀ option ∈ call.options, option.WellTyped) :
    let given := (addOptions proc {} call.options).value
    (given.fromMoment.isSome = true ↔ call.Gives "from") ∧
      (given.toMoment.isSome = true ↔ call.Gives "to") ∧
      (given.last.isSome = true ↔ call.Gives "last") ∧
      (given.every.isSome = true ↔ call.Gives "every") := by
  rw [addOptions_value proc {} distinct]
  refine ⟨isSome_said_iff ?_, isSome_said_iff ?_, isSome_said_iff ?_, isSome_said_iff ?_⟩
  all_goals
    intro option member named
    have isTyped := typed option member
    simp only [ProcOption.WellTyped, named] at isTyped
  · obtain ⟨moment, isMoment, -⟩ := isTyped
    rw [Expr.moment?_eq_some_iff.mpr isMoment, Option.isSome_some]
  · obtain ⟨moment, isMoment⟩ := isTyped
    rw [Expr.moment?_eq_some_iff.mpr isMoment, Option.isSome_some]
  · obtain ⟨duration, isInterval⟩ := isTyped
    rw [Expr.positiveDuration?_eq_some_iff.mpr isInterval, Option.isSome_some]
  · obtain ⟨duration, isInterval⟩ := isTyped
    rw [Expr.positiveDuration?_eq_some_iff.mpr isInterval, Option.isSome_some]

/-- A call of a proc is reported nothing about exactly when it is valid. -/
theorem operatorOf_clean_iff (proc : Proc) (call : ProcCall) :
    (operatorOf proc call).diagnostics = [] ↔ call.ValidFor proc := by
  simp only [operatorOf, Checked.diagnostics_bind, Checked.diagnostics_pure, List.append_nil,
    List.append_eq_nil_iff, checkOptionNames_clean_iff, checkArguments_clean_iff,
    addOptions_clean_iff, checkTrailing, Checked.diagnostics_errorIf_eq_nil_iff]
  constructor
  · rintro ⟨⟨-, distinct, accepted⟩, arguments, typed, trailing, meets⟩
    obtain ⟨hasFrom, hasTo, hasLast, hasEvery⟩ := isSome_addOptions_iff proc distinct typed
    rw [hasFrom, hasTo, hasLast, not_and, not_or] at trailing
    exact ⟨distinct, accepted, arguments, typed, trailing,
      (kindAndOptions_clean_iff hasEvery).mp meets⟩
  · rintro ⟨distinct, accepted, arguments, typed, trailing, meets⟩
    obtain ⟨hasFrom, hasTo, hasLast, hasEvery⟩ := isSome_addOptions_iff proc distinct typed
    rw [hasFrom, hasTo, hasLast, not_and, not_or]
    exact ⟨⟨by simp, distinct, accepted⟩, arguments, typed, trailing,
      (kindAndOptions_clean_iff hasEvery).mpr meets⟩

/-- A name stands for an operator exactly if it is the name of that operator. -/
theorem ofName?_eq_some_iff {name : String} {proc : Proc} :
    Proc.ofName? name = some proc ↔ proc.name = name := by
  constructor
  · intro found
    simpa using List.find?_some found
  · rintro rfl
    exact Proc.ofName?_name proc

/-- A call is lowered without an error exactly if it is valid. -/
theorem operator?_clean_iff (call : ProcCall) : call.operator?.diagnostics = [] ↔ call.Valid := by
  simp only [operator?, Valid, ← ofName?_eq_some_iff]
  cases Proc.ofName? call.name.name with
  | none => simp [Checked.missing]
  | some proc => simp [operatorOf_clean_iff]

/-! ## The operator of a valid call -/

/-- The options of a call as their values say. -/
def givenOptions (call : ProcCall) : OperatorOptions :=
  { fromMoment := said Expr.moment? "from" none call.options
    toMoment := said Expr.moment? "to" none call.options
    last := said Expr.positiveDuration? "last" none call.options
    every := said Expr.positiveDuration? "every" none call.options
    limit := said Expr.count? "limit" none call.options }

/-- The kind of the operators of a proc; a reduction is periodic if a period is given. -/
def kindFor (call : ProcCall) : Proc → OperatorKind
  | .read | .emit => .source
  | .batch => .windowedAggregate
  | .reduce => if call.givenOptions.every.isSome then .periodicAggregate else .aggregate
  | .sort => .sort
  | .head => .head
  | .tail => .tail
  | .unbatch => .unbatch
  | .merge => .merge
  | .view | .write => .sink
  | .put | .filter | .keep | .remove | .uniq | .pass => .passThrough

/--
The options of the operators of a proc: `batch` may have its interval from its argument,
and `head` and `tail` have their count from there.
-/
def optionsFor (call : ProcCall) : Proc → OperatorOptions
  | .batch =>
      { call.givenOptions with
        every := call.givenOptions.every.or (call.arguments.head?.bind Expr.positiveDuration?) }
  | .head | .tail =>
      { call.givenOptions with limit := some ((call.arguments.head?.bind Expr.count?).getD 1) }
  | _ => call.givenOptions

/-- What a call means, if its proc exists. -/
def meaning? (call : ProcCall) : Option Operator :=
  (Proc.ofName? call.name.name).map fun proc =>
    { name := call.name.name, kind := call.kindFor proc, options := call.optionsFor proc,
      span := call.span }

/-- The first argument gives the interval where no option does. -/
theorem addInterval_value (proc : Proc) (call : ProcCall) (options : OperatorOptions) :
    (addInterval proc call options).value =
      { options with
        every := options.every.or (call.arguments.head?.bind Expr.positiveDuration?) } := by
  obtain ⟨fromMoment, toMoment, last, every, limit⟩ := options
  simp only [addInterval]
  cases call.arguments <;> cases every <;> simp [durationValue_value]

theorem countArgument_value (proc : Proc) (call : ProcCall) :
    (countArgument proc call).value = (call.arguments.head?.bind Expr.count?).getD 1 := by
  simp only [countArgument]
  cases call.arguments with
  | nil => rfl
  | cons first others =>
      cases count : first.count? <;> cases others <;> simp [count]

/-- The kind and the options of an operator are those its call gives. -/
theorem kindAndOptions_value (proc : Proc) (call : ProcCall) :
    (kindAndOptions proc call call.givenOptions).value =
      (call.kindFor proc, call.optionsFor proc) := by
  cases proc with
  | batch =>
      simp only [kindAndOptions, Checked.value_bind, Checked.value_pure, addInterval_value]
      rfl
  | head | tail =>
      simp only [kindAndOptions, Checked.value_bind, Checked.value_pure, countArgument_value]
      rfl
  | _ => rfl

/-- If no option is given twice, the operator of a call is what the call means. -/
theorem operator?_value {call : ProcCall}
    (distinct : (call.options.map fun option => option.name.name).Nodup) :
    call.operator?.value = call.meaning? := by
  simp only [operator?, meaning?]
  cases known : Proc.ofName? call.name.name with
  | none => rfl
  | some proc =>
      have given : (addOptions proc {} call.options).value = call.givenOptions :=
        addOptions_value proc {} distinct
      simp only [operatorOf, Checked.value_bind, Checked.value_pure, given, kindAndOptions_value,
        ofName?_eq_some_iff.mp known, Option.map_some]

/-- Any call of a known proc becomes an operator of that name at the place of the call. -/
theorem name_and_span_of_operator? (call : ProcCall) :
    call.operator?.value.map (fun operator => (operator.name, operator.span)) =
      (Proc.ofName? call.name.name).map fun proc => (proc.name, call.span) := by
  simp only [operator?]
  cases Proc.ofName? call.name.name <;> rfl

end ProcCall

/-! ## Programs -/

namespace Stage

variable {α β γ : Type}

mutual

/-- The stage with other steps; there is none for a step that has no other. -/
def keep (other? : α → Option β) : Stage α → List (Stage β)
  | step value => (other? value).toList.map step
  | parallel branches span => [parallel (keepBranches other? branches) span]

def keepChain (other? : α → Option β) : List (Stage α) → List (Stage β)
  | [] => []
  | stage :: rest => keep other? stage ++ keepChain other? rest

def keepBranches (other? : α → Option β) : List (Flow α) → List (Flow β)
  | [] => []
  | ⟨stages, span⟩ :: rest => ⟨keepChain other? stages, span⟩ :: keepBranches other? rest

end

section Keep

variable (onStep : β → γ) (other? : α → Option β)

mutual

theorem map_keep (stage : Stage α) :
    (keep other? stage).map (map onStep id) =
      keep (fun value => (other? value).map onStep) stage := by
  cases stage with
  | step value => simp only [keep]; cases other? value <;> rfl
  | parallel branches span => simp [keep, map, mapBranches_keepBranches branches]

theorem mapChain_keepChain (stages : List (Stage α)) :
    mapChain onStep id (keepChain other? stages) =
      keepChain (fun value => (other? value).map onStep) stages := by
  cases stages with
  | nil => rfl
  | cons stage rest =>
      have first := map_keep stage
      have others := mapChain_keepChain rest
      rw [mapChain_eq_map] at others ⊢
      rw [keepChain, keepChain, List.map_append, first, others]

/-- What is made of the other steps can be made of the steps at once. -/
theorem mapBranches_keepBranches (branches : List (Flow α)) :
    mapBranches onStep id (keepBranches other? branches) =
      keepBranches (fun value => (other? value).map onStep) branches := by
  cases branches with
  | nil => rfl
  | cons flow rest =>
      obtain ⟨stages, span⟩ := flow
      rw [keepBranches, mapBranches, mapChain_keepChain stages, mapBranches_keepBranches rest]
      rfl

end

variable {other? : α → Option β} {same? : α → Option β}

mutual

theorem keep_of_forall {stage : Stage α}
    (every : ∀ value ∈ stage.steps, ∃ other, other? value = some other ∧ same? value = some other) :
    (keep other? stage).map (map some id) = [stage.map same? id] := by
  cases stage with
  | step value =>
      obtain ⟨other, isOther, isSame⟩ := every value (List.mem_singleton_self value)
      simp [keep, map, isOther, isSame]
  | parallel branches span => simp [keep, map, keepBranches_of_forall every]

/-- If every step has an operator, the stages that are kept are all of them. -/
theorem keepChain_of_forall {stages : List (Stage α)}
    (every : ∀ value ∈ chainSteps stages,
      ∃ other, other? value = some other ∧ same? value = some other) :
    mapChain some id (keepChain other? stages) = mapChain same? id stages := by
  cases stages with
  | nil => rfl
  | cons stage rest =>
      rw [chainSteps, List.forall_mem_append] at every
      have first := keep_of_forall every.1
      have others := keepChain_of_forall every.2
      rw [mapChain_eq_map] at others ⊢
      rw [keepChain, List.map_append, first, others, mapChain, List.singleton_append]

/-- Where every step has another, nothing is left out. -/
theorem keepBranches_of_forall {branches : List (Flow α)}
    (every : ∀ value ∈ branchSteps branches,
      ∃ other, other? value = some other ∧ same? value = some other) :
    mapBranches some id (keepBranches other? branches) = mapBranches same? id branches := by
  cases branches with
  | nil => rfl
  | cons flow rest =>
      obtain ⟨stages, span⟩ := flow
      rw [branchSteps, List.forall_mem_append] at every
      rw [keepBranches, mapBranches, mapBranches, keepChain_of_forall every.1,
        keepBranches_of_forall every.2]

end

end Keep

mutual

/-- The operators of a stage are those its calls are lowered to. -/
theorem operators_value (stage : Stage ProcCall) :
    stage.operators.value = keep (fun call => call.operator?.value) stage := by
  cases stage with
  | step call =>
      simp only [operators, keep, Checked.value_bind, Checked.value_pure]
      cases call.operator?.value <;> rfl
  | parallel branches span => simp [operators, keep, branchOperators_value branches]

/-- The operators of a chain are those its calls are lowered to. -/
theorem chainOperators_value (stages : List (Stage ProcCall)) :
    (chainOperators stages).value = keepChain (fun call => call.operator?.value) stages := by
  cases stages with
  | nil => rfl
  | cons stage rest =>
      simp only [chainOperators, Checked.value_bind, Checked.value_pure, keepChain,
        operators_value stage, chainOperators_value rest]

/-- Calls are replaced by their operators where they stand. -/
theorem branchOperators_value (branches : List (Flow ProcCall)) :
    (branchOperators branches).value =
      keepBranches (fun call => call.operator?.value) branches := by
  cases branches with
  | nil => rfl
  | cons flow rest =>
      obtain ⟨stages, span⟩ := flow
      simp only [branchOperators, Checked.value_bind, Checked.value_pure, keepBranches,
        chainOperators_value stages, branchOperators_value rest]

end

mutual

/-- A stage is lowered without an error exactly if every call in it is. -/
theorem operators_clean_iff (stage : Stage ProcCall) :
    stage.operators.diagnostics = [] ↔ ∀ call ∈ stage.steps, call.operator?.diagnostics = [] := by
  cases stage with
  | step call => simp [operators, steps]
  | parallel branches span => simp [operators, steps, branchOperators_clean_iff branches]

/-- A chain is lowered without an error exactly if every call in it is. -/
theorem chainOperators_clean_iff (stages : List (Stage ProcCall)) :
    (chainOperators stages).diagnostics = [] ↔
      ∀ call ∈ chainSteps stages, call.operator?.diagnostics = [] := by
  cases stages with
  | nil => simp [chainOperators, chainSteps]
  | cons stage rest =>
      simp [chainOperators, chainSteps, operators_clean_iff stage, chainOperators_clean_iff rest,
        or_imp, forall_and]

/-- Nothing is reported about chains exactly if nothing is reported about any of their calls. -/
theorem branchOperators_clean_iff (branches : List (Flow ProcCall)) :
    (branchOperators branches).diagnostics = [] ↔
      ∀ call ∈ branchSteps branches, call.operator?.diagnostics = [] := by
  cases branches with
  | nil => simp [branchOperators, branchSteps]
  | cons flow rest =>
      obtain ⟨stages, span⟩ := flow
      simp [branchOperators, branchSteps, chainOperators_clean_iff stages,
        branchOperators_clean_iff rest, or_imp, forall_and]

end

end Stage

/-- Every call of the program, at any depth, is valid. -/
def Program.Valid (program : Program) : Prop :=
  ∀ call ∈ Stage.branchSteps program.chains, call.Valid

/-- A valid call is lowered to the operator it means. -/
theorem ProcCall.Valid.exists_operator {call : ProcCall} (valid : call.Valid) :
    ∃ operator, call.operator?.value = some operator ∧ call.meaning? = some operator := by
  obtain ⟨proc, named, isValid⟩ := valid
  rw [operator?_value isValid.distinct, meaning?, ofName?_eq_some_iff.mpr named]
  exact ⟨_, rfl, rfl⟩

/--
Exactly the valid programs are turned into operators without an error.  In any case the
operators of the known procs stand in chains and blocks of the same shape; those of a valid
program are what its calls mean, and none is left out.
-/
theorem operators_accept_valid (program : Program) :
    (program.operators.diagnostics = [] ↔ program.Valid) ∧
      Stage.mapBranches (fun operator => (operator.name, operator.span)) id
          program.operators.value =
        Stage.keepBranches
          (fun call => (Proc.ofName? call.name.name).map fun proc => (proc.name, call.span))
          program.chains ∧
      (program.Valid →
        Stage.mapBranches some id program.operators.value =
          Stage.mapBranches ProcCall.meaning? id program.chains) := by
  have value : program.operators.value = _ := Stage.branchOperators_value program.chains
  refine ⟨?_, ?_, ?_⟩
  · simp only [Program.operators, Stage.branchOperators_clean_iff, ProcCall.operator?_clean_iff]
    rfl
  · rw [value, Stage.mapBranches_keepBranches]
    simp only [ProcCall.name_and_span_of_operator?]
  · intro valid
    rw [value]
    exact Stage.keepBranches_of_forall fun call member => (valid call member).exists_operator

/-- The program `(emit -to :end:) | view table` is valid. -/
theorem operators_accept_valid_emitInBlock :
    let emit : ProcCall := ⟨⟨"emit", ⟨1, 5⟩⟩,
      [⟨⟨"to", ⟨6, 9⟩⟩, .moment "end" ⟨10, 15⟩, ⟨6, 15⟩⟩], [], ⟨1, 15⟩⟩
    let view : ProcCall := ⟨⟨"view", ⟨19, 23⟩⟩, [], [.ident ⟨"table", ⟨24, 29⟩⟩], ⟨19, 29⟩⟩
    let program : Program :=
      ⟨[⟨[.parallel [⟨[.step emit], ⟨1, 15⟩⟩] ⟨0, 16⟩, .step view], ⟨0, 29⟩⟩], ⟨0, 29⟩⟩
    program.Valid ∧
      Stage.mapBranches some id program.operators.value =
        Stage.mapBranches ProcCall.meaning? id program.chains := by
  intro emit view program
  have valid : program.Valid := (operators_accept_valid program).1.mp rfl
  exact ⟨valid, (operators_accept_valid program).2.2 valid⟩

end Flowgraph
