import Flowgraph.Proofs.Operator.Relocation
import Flowgraph.Proofs.Operator.Validity
import Flowgraph.Proofs.Time.Text

/-!
# Options as they are shown

The options of an operator are shown one after the other, each with its name before its
value.  The value of a count ends at a space and all other values end at a colon, so that
the names and values are known from the text, and from them the options themselves
(`OperatorOptions.given_append_inj`).
-/

namespace Flowgraph

open Text

/-! ## One option -/

/-- The options that are shown, in the order in which they are shown. -/
inductive OptionTag where
  | fromMoment
  | toMoment
  | last
  | every
  | limit
deriving DecidableEq

namespace OptionTag

def all : List OptionTag :=
  [fromMoment, toMoment, last, every, limit]

theorem mem_all (tag : OptionTag) : tag ∈ all := by
  cases tag <;> decide

def name : OptionTag → String
  | fromMoment => "-from"
  | toMoment => "-to"
  | last => "-last"
  | every => "-every"
  | limit => "-limit"

/-- What a value ends at, and does not contain. -/
def mark : OptionTag → Char
  | limit => ' '
  | fromMoment | toMoment | last | every => ':'

theorem name_inj : ∀ first second : OptionTag, first.name = second.name → first = second := by
  intro first second
  cases first <;> cases second <;> decide

theorem count_name (tag : OptionTag) : tag.name.toList.count ' ' = 0 := by
  cases tag <;> decide

end OptionTag

/-- An option with its value as it is shown. -/
structure ShownOption where
  tag : OptionTag
  value : String

namespace ShownOption

/-- The option as it is shown; only a count has no colons around it. -/
def text (option : ShownOption) : String :=
  option.tag.name ++ " " ++
    match option.tag with
    | .limit => option.value
    | .fromMoment | .toMoment | .last | .every => ":" ++ option.value ++ ":"

/-- The option and the space behind it, as fields with marks. -/
def fields (option : ShownOption) : List (List Char × Char) :=
  (option.tag.name.toList, ' ') ::
    match option.tag with
    | .limit => [(option.value.toList, ' ')]
    | .fromMoment | .toMoment | .last | .every =>
        [([], ':'), (option.value.toList, ':'), ([], ' ')]

/-- The value does not contain what it ends at. -/
def Clean (option : ShownOption) : Prop :=
  option.value.toList.count option.tag.mark = 0

theorem toList_text (option : ShownOption) :
    option.text.toList ++ [' '] = marked option.fields := by
  obtain ⟨tag, value⟩ := option
  cases tag <;> simp [text, fields]

/-- An option is known from a text that begins with it. -/
theorem marked_fields_append_inj ⦃option other : ShownOption⦄ ⦃rest more : List Char⦄
    (clean : option.Clean) (cleanOther : other.Clean)
    (same : marked option.fields ++ rest = marked other.fields ++ more) :
    option = other ∧ rest = more := by
  obtain ⟨tag, value⟩ := option
  obtain ⟨tagOther, valueOther⟩ := other
  have names : tag.name.toList = tagOther.name.toList := by
    simp only [fields, marked_cons, List.append_assoc, List.cons_append] at same
    exact (append_mark_inj (by rw [OptionTag.count_name, OptionTag.count_name]) same).1
  obtain rfl := OptionTag.name_inj _ _ (String.toList_inj.mp names)
  have sameMarks : marks (fields ⟨tag, value⟩) = marks (fields ⟨tag, valueOther⟩) := by
    cases tag <;> simp_all [fields, Clean, OptionTag.mark]
  obtain ⟨sameFields, rests⟩ := marked_append_inj sameMarks same
  have values : value.toList = valueOther.toList := by
    cases tag <;> simpa [fields] using sameFields
  rw [String.toList_inj.mp values]
  exact ⟨rfl, rests⟩

end ShownOption

/-! ## All options of an operator -/

namespace OperatorOptions

/-- The value of an option as it is shown, if the option is given. -/
def shown? (options : OperatorOptions) : OptionTag → Option String
  | .fromMoment => options.fromMoment.map Moment.shown
  | .toMoment => options.toMoment.map Moment.shown
  | .last => options.last.map Duration.text
  | .every => options.every.map Duration.text
  | .limit => options.limit.map fun count => toString count.toNat

/-- The options that are given, with their values as they are shown. -/
def given (options : OperatorOptions) : List ShownOption :=
  OptionTag.all.filterMap fun tag => (options.shown? tag).map (ShownOption.mk tag)

theorem mem_given {options : OperatorOptions} {tag : OptionTag} {value : String} :
    ⟨tag, value⟩ ∈ options.given ↔ options.shown? tag = some value := by
  simp [given, OptionTag.mem_all]

/-- The durations among the options are of whole milliseconds. -/
structure IsWhole (options : OperatorOptions) : Prop where
  fromMoment : ∀ moment ∈ options.fromMoment, moment.IsWhole
  toMoment : ∀ moment ∈ options.toMoment, moment.IsWhole
  last : ∀ duration ∈ options.last, duration.IsWhole
  every : ∀ duration ∈ options.every, duration.IsWhole

/-- No value that is shown contains what it ends at. -/
theorem clean_of_mem_given {options : OperatorOptions} :
    ∀ option ∈ options.given, option.Clean := by
  have ofMoment (moment : Moment) : moment.shown.toList.count ':' = 0 := by
    refine List.count_eq_zero_of_not_mem fun member => ?_
    rcases Moment.mem_shown member with isAlphanum | isDash | isSpace <;> contradiction
  have ofDuration (duration : Duration) : duration.text.toList.count ':' = 0 := by
    refine List.count_eq_zero_of_not_mem fun member => ?_
    cases Duration.isAlphanum_of_mem_text member
  rintro ⟨tag, value⟩ member
  rw [mem_given] at member
  cases tag <;> obtain ⟨given, -, rfl⟩ := Option.map_eq_some_iff.mp member
  case fromMoment | toMoment => exact ofMoment given
  case last | every => exact ofDuration given
  case limit => exact count_toString _ rfl

/-- Options of whole milliseconds are known from what is shown of them. -/
theorem given_inj {options others : OperatorOptions} (whole : options.IsWhole)
    (wholeOthers : others.IsWhole) (same : options.given = others.given) : options = others := by
  have shown (tag : OptionTag) : options.shown? tag = others.shown? tag := by
    ext value
    rw [← mem_given, ← mem_given, same]
  have lift {α : Type} {write : α → String} {value other : Option α}
      (injective : ∀ given ∈ value, ∀ givenOther ∈ other, write given = write givenOther →
        given = givenOther)
      (sameShown : value.map write = other.map write) : value = other := by
    cases value <;> cases other <;> simp_all
  have fromMoment : options.fromMoment = others.fromMoment :=
    lift (fun moment given other givenOther => Moment.shown_inj (whole.fromMoment moment given)
      (wholeOthers.fromMoment other givenOther)) (shown .fromMoment)
  have toMoment : options.toMoment = others.toMoment :=
    lift (fun moment given other givenOther => Moment.shown_inj (whole.toMoment moment given)
      (wholeOthers.toMoment other givenOther)) (shown .toMoment)
  have last : options.last = others.last :=
    lift (fun duration given other givenOther => Duration.text_inj (whole.last duration given)
      (wholeOthers.last other givenOther)) (shown .last)
  have every : options.every = others.every :=
    lift (fun duration given other givenOther => Duration.text_inj (whole.every duration given)
      (wholeOthers.every other givenOther)) (shown .every)
  have limit : options.limit = others.limit :=
    lift (fun count _ other _ same => UInt64.toNat_inj.mp
      (toString_inj (String.toList_inj.mpr same))) (shown .limit)
  cases options
  cases others
  cases fromMoment; cases toMoment; cases last; cases every; cases limit
  rfl

/-- The parts of the text are the options that are given. -/
theorem parts_eq (options : OperatorOptions) :
    options.parts = options.given.map ShownOption.text := by
  have ofMoment (name : String) (moment : Moment) :
      name ++ " " ++ moment.text = name ++ " " ++ (":" ++ moment.shown ++ ":") := by
    rw [Moment.text_eq]
  have ofDuration (name : String) (duration : Duration) :
      name ++ " :" ++ duration.text ++ ":" = name ++ " " ++ (":" ++ duration.text ++ ":") := by
    rw [← String.toList_inj]
    simp
  have fromMoment (moment : Moment) :
      "-from " ++ moment.text = ShownOption.text ⟨.fromMoment, moment.shown⟩ :=
    ofMoment "-from" moment
  have toMoment (moment : Moment) :
      "-to " ++ moment.text = ShownOption.text ⟨.toMoment, moment.shown⟩ :=
    ofMoment "-to" moment
  have last (duration : Duration) :
      "-last :" ++ duration.text ++ ":" = ShownOption.text ⟨.last, duration.text⟩ :=
    ofDuration "-last" duration
  have every (duration : Duration) :
      "-every :" ++ duration.text ++ ":" = ShownOption.text ⟨.every, duration.text⟩ :=
    ofDuration "-every" duration
  have each : options.parts = (OptionTag.all.map fun tag =>
      ((options.shown? tag).map (ShownOption.mk tag)).map ShownOption.text).filterMap id := by
    simp only [parts, fromMoment, toMoment, last, every, OptionTag.all, List.map_cons,
      List.map_nil, shown?, Option.map_map]
    rfl
  rw [each, List.filterMap_map, given, List.map_filterMap]
  rfl

theorem isEmpty_iff (options : OperatorOptions) : options.isEmpty = true ↔ options.given = [] := by
  simp only [isEmpty, given, OptionTag.all, List.filterMap_eq_nil_iff, List.forall_mem_cons,
    shown?, Option.map_eq_none_iff, Bool.and_eq_true, Option.isNone_iff_eq_none, and_assoc]
  simp

/-- The options in the line of a node, where the place follows them. -/
theorem toList_text (options : OperatorOptions) :
    ((if options.isEmpty then "" else " " ++ options.text) ++ " @ ").toList =
      ' ' :: ((options.given.flatMap fun option => marked option.fields) ++ ['@', ' ']) := by
  by_cases empty : options.isEmpty = true
  · rw [if_pos empty, (isEmpty_iff options).mp empty]
    rfl
  · have nonempty : options.parts ≠ [] := by
      rw [parts_eq]
      exact fun none => empty ((isEmpty_iff options).mpr (List.map_eq_nil_iff.mp none))
    have spaced := toList_intercalate_append nonempty
    rw [parts_eq, List.flatMap_map] at spaced
    simp only [ShownOption.toList_text] at spaced
    rw [if_neg empty, ← spaced]
    simp [text, parts_eq]

/--
Options are known from the line of a node.  What is known of each is what is shown, and for
options of whole milliseconds this is everything (`given_inj`).
-/
theorem given_append_inj {options others : OperatorOptions} {rest more : List Char}
    (same : (options.given.flatMap fun option => marked option.fields) ++ '@' :: rest =
      (others.given.flatMap fun option => marked option.fields) ++ '@' :: more) :
    options.given = others.given ∧ rest = more := by
  have begins (option : ShownOption) (after : List Char) :
      ¬ (marked option.fields ++ after).head? = some '@' := by
    obtain ⟨tag, value⟩ := option
    cases tag <;> simp [ShownOption.fields, OptionTag.name]
  obtain ⟨given, rests⟩ := flatMap_append_inj id (·.head? = some '@')
    ShownOption.marked_fields_append_inj begins clean_of_mem_given clean_of_mem_given rfl rfl same
  exact ⟨by simpa using given, (List.cons.inj rests).2⟩

end OperatorOptions

/-! ## Options of calls -/

theorem Expr.isWhole_of_moment? {value : Expr} :
    ∀ moment ∈ value.moment?, moment.IsWhole := by
  intro moment found
  cases value with
  | moment text span => exact Moment.isWhole_of_read? found
  | _ => cases found

theorem Expr.isWhole_of_positiveDuration? {value : Expr} :
    ∀ duration ∈ value.positiveDuration?, duration.IsWhole := by
  intro duration found
  cases value with
  | moment text span => exact Duration.isWhole_of_read? (Option.filter_eq_some_iff.mp found).1
  | _ => cases found

namespace ProcCall

/-- An option of a call adds a value of whole milliseconds, if any. -/
theorem isWhole_addOption (proc : Proc) {options : OperatorOptions} (whole : options.IsWhole)
    (option : ProcOption) : (addOption proc options option).value.IsWhole := by
  rw [addOption_value]
  constructor <;> dsimp only <;> split_ifs
  · exact Expr.isWhole_of_moment?
  · exact whole.fromMoment
  · exact Expr.isWhole_of_moment?
  · exact whole.toMoment
  · exact Expr.isWhole_of_positiveDuration?
  · exact whole.last
  · exact Expr.isWhole_of_positiveDuration?
  · exact whole.every

theorem isWhole_addOptions (proc : Proc) {options : OperatorOptions} (whole : options.IsWhole)
    (given : List ProcOption) : (addOptions proc options given).value.IsWhole := by
  induction given generalizing options with
  | nil => exact whole
  | cons option rest ih =>
      rw [addOptions, Checked.value_bind]
      exact ih (isWhole_addOption proc whole option)

/-- The arguments of a call add a duration of whole milliseconds at most. -/
theorem isWhole_kindAndOptions (proc : Proc) (call : ProcCall) {options : OperatorOptions}
    (whole : options.IsWhole) : (kindAndOptions proc call options).value.2.IsWhole := by
  cases proc with
  | batch =>
      simp only [kindAndOptions, Checked.value_bind, Checked.value_pure, addInterval_value]
      refine ⟨whole.fromMoment, whole.toMoment, whole.last, fun duration found => ?_⟩
      rcases Option.or_eq_some_iff.mp found with isOption | ⟨-, isArgument⟩
      · exact whole.every duration isOption
      · obtain ⟨argument, -, isDuration⟩ := Option.bind_eq_some_iff.mp isArgument
        exact Expr.isWhole_of_positiveDuration? duration isDuration
  | head | tail => exact ⟨whole.fromMoment, whole.toMoment, whole.last, whole.every⟩
  | _ => exact whole

/-- The operator of a call has durations of whole milliseconds. -/
theorem isWhole_operator? {call : ProcCall} {operator : Operator}
    (known : call.operator?.value = some operator) : operator.options.IsWhole := by
  rw [operator?] at known
  cases named : Proc.ofName? call.name.name with
  | none =>
      simp only [named] at known
      cases known
  | some proc =>
      simp only [named, Checked.value_bind, Checked.value_pure, Option.some.injEq, operatorOf]
        at known
      subst known
      exact isWhole_kindAndOptions proc call
        (isWhole_addOptions proc ⟨by simp, by simp, by simp, by simp⟩ call.options)

end ProcCall

/-- An operator of a program comes from one of its calls. -/
theorem Program.exists_call_of_mem_operators {program : Program} {operator : Operator}
    (member : operator ∈ Stage.branchSteps program.operators.value) :
    ∃ call ∈ Stage.branchSteps program.chains, call.operator?.value = some operator := by
  rw [Program.operators, Stage.branchSteps_branchOperators] at member
  exact List.mem_filterMap.mp member

end Flowgraph
