import Flowgraph.Proofs.Operator.Text
import Flowgraph.Proofs.Program.Numbers
import Flowgraph.Proofs.Time.ReadBack
import Flowgraph.Proofs.Token.Joining
import Flowgraph.Proofs.Token.Words

/-!
# Options that read back

The options of an operator are shown as they can be written in a program.  If the operator
comes from a valid call, a source with these options written behind it is read without any
fault, and its operator has exactly the same options (`options_read_back`).

Two things meet here.  The words of an option are read as they were meant, one option after
the other (`exists_items`), and the values are read as what they were made from
(`Moment.read?_shown`, `Duration.read?_text`, `Number.exists_ofDecimal`).  The latter holds of
the values of valid calls only, since not every count of milliseconds or of points can be
written as a number (`OperatorOptions.Readable`).
-/

namespace Flowgraph

open Number

/-! ## Options that were read -/

/-- The values of the options were read from values of a valid call. -/
structure OperatorOptions.Readable (options : OperatorOptions) : Prop where
  fromMoment : ∀ moment ∈ options.fromMoment,
    moment ≠ .endOfTime ∧ ∃ text, Moment.read? text = some moment
  toMoment : ∀ moment ∈ options.toMoment, ∃ text, Moment.read? text = some moment
  last : ∀ duration ∈ options.last,
    duration.nanoseconds ≠ 0 ∧ ∃ text, Duration.read? text = some duration
  every : ∀ duration ∈ options.every,
    duration.nanoseconds ≠ 0 ∧ ∃ text, Duration.read? text = some duration
  limit : ∀ count ∈ options.limit, IsCast count
  trailing : options.last.isSome → options.fromMoment = none ∧ options.toMoment = none

namespace Expr

variable {value : Expr}

theorem exists_read?_of_moment? {moment : Moment} (found : value.moment? = some moment) :
    ∃ text, Moment.read? text = some moment := by
  obtain ⟨text, span, -, read⟩ := moment?_eq_some_iff.mp found
  exact ⟨_, read⟩

theorem exists_read?_of_positiveDuration? {duration : Duration}
    (found : value.positiveDuration? = some duration) :
    duration.nanoseconds ≠ 0 ∧ ∃ text, Duration.read? text = some duration := by
  obtain ⟨text, span, -, read, nonzero⟩ := positiveDuration?_eq_some_iff.mp found
  exact ⟨nonzero, _, read⟩

theorem isCast_of_count? (fits : value.NumberFits) {count : UInt64}
    (found : value.count? = some count) : IsCast count := by
  cases value with
  | number literal span =>
      simp only [count?, Option.ite_none_right_eq_some, Option.some.injEq] at found
      exact found.2 ▸ isCast_toWord (fits literal span rfl)
  | _ => cases found

end Expr

namespace ProcCall

variable {call : ProcCall} {proc : Proc}

theorem readable_givenOptions (valid : call.ValidFor proc) (fit : call.NumbersFit) :
    call.givenOptions.Readable where
  fromMoment moment said := by
    obtain ⟨option, member, named, found⟩ := exists_of_said said
    have typed := valid.typed option member
    simp only [ProcOption.WellTyped, named] at typed
    obtain ⟨other, isOther, notEnd⟩ := typed
    obtain rfl := Option.some.inj (found.symm.trans (Expr.moment?_eq_some_iff.mpr isOther))
    exact ⟨notEnd, Expr.exists_read?_of_moment? found⟩
  toMoment moment said := by
    obtain ⟨option, -, -, found⟩ := exists_of_said said
    exact Expr.exists_read?_of_moment? found
  last duration said := by
    obtain ⟨option, -, -, found⟩ := exists_of_said said
    exact Expr.exists_read?_of_positiveDuration? found
  every duration said := by
    obtain ⟨option, -, -, found⟩ := exists_of_said said
    exact Expr.exists_read?_of_positiveDuration? found
  limit count said := by
    obtain ⟨option, member, -, found⟩ := exists_of_said said
    exact Expr.isCast_of_count? (fit.options option member) found
  trailing given := by
    obtain ⟨duration, said⟩ := Option.isSome_iff_exists.mp given
    obtain ⟨option, member, named, -⟩ := exists_of_said said
    obtain ⟨noFrom, noTo⟩ := valid.trailing ⟨option, member, named⟩
    exact ⟨said_of_forall_ne _ _ _ fun other isOther named => noFrom ⟨other, isOther, named⟩,
      said_of_forall_ne _ _ _ fun other isOther named => noTo ⟨other, isOther, named⟩⟩

/-- What the arguments of a valid call add to its options was read as well. -/
theorem readable_optionsFor (valid : call.ValidFor proc) (fit : call.NumbersFit) :
    (call.optionsFor proc).Readable := by
  have given := readable_givenOptions valid fit
  cases proc with
  | batch =>
      refine { given with every := fun duration isEvery => ?_ }
      rcases Option.or_eq_some_iff.mp isEvery with isOption | ⟨-, isArgument⟩
      · exact given.every duration isOption
      · obtain ⟨argument, -, found⟩ := Option.bind_eq_some_iff.mp isArgument
        exact Expr.exists_read?_of_positiveDuration? found
  | head | tail =>
      refine { given with limit := fun count isLimit => ?_ }
      obtain rfl := Option.some.inj isLimit
      cases isArgument : call.arguments.head?.bind Expr.count? with
      | none => exact .inl (significant_of_lt (by decide))
      | some count =>
          obtain ⟨argument, isFirst, found⟩ := Option.bind_eq_some_iff.mp isArgument
          exact Expr.isCast_of_count?
            (fit.arguments argument (List.mem_of_mem_head? isFirst)) found
  | _ => exact given

end ProcCall

/--
The operator is one of a program that is turned into operators with nothing reported.  The
numbers of the program are those of the format, as they are in every program that was read
from a text (`lowers_of_parse`).
-/
structure Program.Lowers (program : Program) (operator : Operator) : Prop where
  fit : program.NumbersFit
  clean : program.operators.diagnostics = []
  member : operator ∈ Stage.branchSteps program.operators.value

theorem Program.Lowers.readable {program : Program} {operator : Operator}
    (lowers : program.Lowers operator) : operator.options.Readable := by
  obtain ⟨call, isCall, value⟩ := Program.exists_call_of_mem_operators lowers.member
  have clean := (Stage.branchOperators_clean_iff _).mp lowers.clean call isCall
  obtain ⟨proc, named, valid⟩ := (ProcCall.operator?_clean_iff call).mp clean
  rw [ProcCall.operator?_value valid.distinct, ProcCall.meaning?,
    ProcCall.ofName?_eq_some_iff.mpr named] at value
  obtain rfl := Option.some.inj value
  exact ProcCall.readable_optionsFor valid (lowers.fit call isCall)

/-! ## Values that read back -/

namespace OptionTag

/-- The name of an option without its dash. -/
def word : OptionTag → String
  | fromMoment => "from"
  | toMoment => "to"
  | last => "last"
  | every => "every"
  | limit => "limit"

theorem toList_name (tag : OptionTag) : tag.name.toList = '-' :: tag.word.toList := by
  cases tag <;> rfl

theorem word_inj {first second : OptionTag} (same : first.word = second.word) :
    first = second :=
  name_inj _ _ (String.toList_inj.mp (by rw [toList_name, toList_name, same]))

theorem word_mem_name (tag : OptionTag) : tag.word.toList ∈ Pattern.name := by
  cases tag <;> exact mem_name_of_all (by decide) (by decide)

/-- The value is read as what the options have under this name. -/
def Tells (options : OperatorOptions) (value : Expr) : OptionTag → Prop
  | fromMoment => value.moment? = options.fromMoment
  | toMoment => value.moment? = options.toMoment
  | last => value.positiveDuration? = options.last
  | every => value.positiveDuration? = options.every
  | limit => value.count? = options.limit

end OptionTag

/-- The digits of a number to which numbers are cast are read as this number. -/
theorem Expr.count?_digits {count : UInt64} (isCast : IsCast count) (span : Span) :
    (Expr.number (Binary64.ofDecimal false count.toNat 0) span).count? = some count := by
  obtain ⟨whole, decimal, -, -, word⟩ :=
    exists_ofDecimal isCast (Nat.mul_one count.toNat).symm Nat.one_pos fun _ => rfl
  rw [Nat.mul_one] at word
  have natural : (Binary64.finite false (whole * Binary64.unitsPerOne)).isWhole = true := by
    rw [Binary64.isWhole, Nat.mul_mod_left, beq_self_eq_true]
  rw [decimal, count?, natural, Binary64.toWord_whole, word]
  rfl

/-! ## Words that read back -/

/-- Before a text the word is read as a token that is the term, wherever it stands. -/
def ReadsAsTerm (after word : List Char) (term : Span → TermTree) : Prop :=
  ∃ token, ReadsBefore after word token ∧ ∀ span, (term span).tokens = [⟨token, span⟩]

/-- A text between colons is read as a moment with this text. -/
theorem readsAsTerm_moment {text : String} (nonempty : text.toList ≠ [])
    (chars : ∀ c ∈ text.toList, c.isAlphanum = true ∨ c = '-' ∨ c = ' ')
    (trimmed : Text.trim text.toList = text.toList) (after : List Char) :
    ReadsAsTerm after (':' :: (text.toList ++ [':'])) (.moment text) := by
  have isInner : text.toList ∈ Pattern.run Pattern.isMomentPart := by
    refine Pattern.mem_run_iff.mpr ⟨nonempty, fun c member => ?_⟩
    rw [Pattern.isMomentPart, Bool.and_eq_true, bne_iff_ne, bne_iff_ne]
    constructor <;>
      rintro rfl <;>
      exact absurd (chars _ member) (by decide)
  exact ⟨_, readsBefore_moment isInner trimmed, fun _ => rfl⟩

theorem readsAsTerm_shown {moment : Moment} (read : ∃ text, Moment.read? text = some moment)
    (after : List Char) :
    ReadsAsTerm after (':' :: (moment.shown.toList ++ [':'])) (.moment moment.shown) ∧
      ∀ span, (Expr.moment moment.shown span).moment? = some moment := by
  obtain ⟨text, found⟩ := read
  have again := Moment.read?_shown found
  refine ⟨readsAsTerm_moment (fun empty => ?_) (fun c => Moment.mem_shown) moment.trim_shown after,
    fun _ => again⟩
  rw [empty] at again
  cases again

theorem readsAsTerm_text {duration : Duration} (nonzero : duration.nanoseconds ≠ 0)
    (read : ∃ text, Duration.read? text = some duration) (after : List Char) :
    ReadsAsTerm after (':' :: (duration.text.toList ++ [':'])) (.moment duration.text) ∧
      ∀ span, (Expr.moment duration.text span).positiveDuration? = some duration := by
  obtain ⟨text, found⟩ := read
  obtain ⟨first, rest, digits, -⟩ := duration.isDigit_head_text
  refine ⟨readsAsTerm_moment (by simp [digits])
    (fun c member => .inl (Duration.isAlphanum_of_mem_text member))
    (Text.trim_of_forall fun c => Duration.not_isBlank_of_mem_text) after, fun span => ?_⟩
  exact Expr.positiveDuration?_eq_some_iff.mpr
    ⟨_, span, rfl, Duration.read?_text found, nonzero⟩

/-- The digits of a count are read as the number they denote, if a space or nothing follows. -/
theorem readsAsTerm_digits {count : UInt64} (isCast : IsCast count) {after : List Char}
    (stops : ∀ c ∈ after.head?, c = ' ') :
    ReadsAsTerm after (toString count.toNat).toList
        (.number (Binary64.ofDecimal false count.toNat 0)) ∧
      ∀ span, (Expr.number (Binary64.ofDecimal false count.toNat 0) span).count? = some count := by
  have areDigits : (toString count.toNat).toList ∈ Pattern.run Char.isDigit :=
    Pattern.mem_run_iff.mpr
      ⟨Text.toString_ne_nil _, fun c member => Text.isDigit_of_mem_toString member⟩
  refine ⟨⟨_, readsBefore_digits areDigits (fun c first => ?_) (Binary64.read_toString _),
    fun _ => rfl⟩, Expr.count?_digits isCast⟩
  rw [stops c first]
  decide

/-- The value of an option that is given is read as a term that says what the option says. -/
theorem OperatorOptions.Readable.exists_term {options : OperatorOptions}
    (readable : options.Readable) {option : ShownOption} (given : option ∈ options.given)
    {after : List Char} (stops : ∀ c ∈ after.head?, c = ' ') :
    ∃ word term, option.text.toList = option.tag.name.toList ++ ' ' :: word ∧
      ReadsAsTerm after word term ∧ ∀ span, option.tag.Tells options (term span).expr := by
  obtain ⟨tag, value⟩ := option
  rw [mem_given] at given
  cases tag with
  | fromMoment =>
      obtain ⟨moment, isFrom, rfl⟩ := Option.map_eq_some_iff.mp given
      obtain ⟨reads, tells⟩ := readsAsTerm_shown (readable.fromMoment moment isFrom).2 after
      exact ⟨_, _, by simp [ShownOption.text], reads, fun span => (tells span).trans isFrom.symm⟩
  | toMoment =>
      obtain ⟨moment, isTo, rfl⟩ := Option.map_eq_some_iff.mp given
      obtain ⟨reads, tells⟩ := readsAsTerm_shown (readable.toMoment moment isTo) after
      exact ⟨_, _, by simp [ShownOption.text], reads, fun span => (tells span).trans isTo.symm⟩
  | last =>
      obtain ⟨duration, isLast, rfl⟩ := Option.map_eq_some_iff.mp given
      obtain ⟨nonzero, read⟩ := readable.last duration isLast
      obtain ⟨reads, tells⟩ := readsAsTerm_text nonzero read after
      exact ⟨_, _, by simp [ShownOption.text], reads, fun span => (tells span).trans isLast.symm⟩
  | every =>
      obtain ⟨duration, isEvery, rfl⟩ := Option.map_eq_some_iff.mp given
      obtain ⟨nonzero, read⟩ := readable.every duration isEvery
      obtain ⟨reads, tells⟩ := readsAsTerm_text nonzero read after
      exact ⟨_, _, by simp [ShownOption.text], reads, fun span => (tells span).trans isEvery.symm⟩
  | limit =>
      obtain ⟨count, isLimit, rfl⟩ := Option.map_eq_some_iff.mp given
      obtain ⟨reads, tells⟩ := readsAsTerm_digits (readable.limit count isLimit) stops
      exact ⟨_, _, by simp [ShownOption.text], reads, fun span => (tells span).trans isLimit.symm⟩

/-! ## Options that read back -/

/-- An option that is given is read as an item that names it and says what it says. -/
theorem OperatorOptions.Readable.exists_item {options : OperatorOptions}
    (readable : options.Readable) {option : ShownOption} (given : option ∈ options.given)
    {after : List Char} (stops : ∀ c ∈ after.head?, c = ' ') (offset : Nat) :
    ∃ (item : ItemTree) (named : ProcOption), item.option? = some named ∧ item.argument? = none ∧
      named.name.name = option.tag.word ∧ option.tag.Tells options named.value ∧
      lexFrom offset (option.text.toList ++ after) =
        ⟨item.tokens, []⟩ ++ lexFrom (offset + Text.byteLength option.text.toList) after := by
  obtain ⟨word, term, written, ⟨token, readsWord, single⟩, tells⟩ :=
    readable.exists_term given stops
  have readsName : ReadsBefore (' ' :: (word ++ after)) option.tag.name.toList
      (.optionName option.tag.word) := by
    rw [OptionTag.toList_name]
    exact readsBefore_optionName option.tag.word_mem_name
      fun c first => Option.some.inj first ▸ by decide
  have split : option.text.toList ++ after =
      option.tag.name.toList ++ ' ' :: (word ++ after) := by
    rw [written, List.append_assoc, List.cons_append]
  have length : Text.byteLength option.text.toList =
      Text.byteLength option.tag.name.toList + ' '.utf8Size + Text.byteLength word := by
    rw [written, Text.byteLength_append, Text.byteLength_cons, Nat.add_assoc]
  obtain ⟨nameSpan, wordSpan, lexed⟩ : ∃ nameSpan wordSpan,
      lexFrom offset (option.text.toList ++ after) =
        ⟨[⟨.optionName option.tag.word, nameSpan⟩, ⟨token, wordSpan⟩], []⟩ ++
          lexFrom (offset + Text.byteLength option.text.toList) after := by
    rw [split, readsName, lexFrom_cons_of_isLayout (by decide), readsWord, length,
      ← Lexing.append_assoc, Nat.add_assoc, Nat.add_assoc]
    exact ⟨_, _, rfl⟩
  refine ⟨⟨some ⟨option.tag.word, nameSpan⟩, .term (term wordSpan), none⟩, _, rfl, rfl, rfl,
    tells wordSpan, ?_⟩
  rw [lexed, ItemTree.tokens, ValueTree.tokens, single]
  rfl

/-- The items name options in order and say what the options with these names say. -/
structure WrittenAs (options : OperatorOptions) (shown : List ShownOption)
    (items : List ItemTree) : Prop where
  names : (items.filterMap ItemTree.option?).map (fun option => option.name.name) =
    shown.map fun option => option.tag.word
  tells : ∀ option ∈ items.filterMap ItemTree.option?, ∀ tag : OptionTag,
    option.name.name = tag.word → tag.Tells options option.value
  arguments : items.filterMap ItemTree.argument? = []

/-- Options that are given are read one after the other. -/
theorem OperatorOptions.Readable.exists_items {options : OperatorOptions}
    (readable : options.Readable) {shown : List ShownOption}
    (given : ∀ option ∈ shown, option ∈ options.given) (offset : Nat) :
    ∃ items, WrittenAs options shown items ∧
      lexFrom offset (shown.flatMap fun option => ' ' :: option.text.toList) =
        ⟨items.flatMap ItemTree.tokens, []⟩ := by
  induction shown generalizing offset with
  | nil => exact ⟨[], ⟨rfl, by simp, rfl⟩, rfl⟩
  | cons option rest ih =>
      obtain ⟨isGiven, givenRest⟩ := List.forall_mem_cons.mp given
      -- An option ends at the space before the next one, or at the end of the text.
      have stops : ∀ c ∈ (rest.flatMap fun option => ' ' :: option.text.toList).head?,
          c = ' ' := by
        cases rest with
        | nil => simp
        | cons second later =>
            rintro c first
            exact (Option.some.inj first).symm
      obtain ⟨item, named, isOption, noArgument, isNamed, tells, first⟩ :=
        readable.exists_item isGiven stops (offset + ' '.utf8Size)
      obtain ⟨items, written, later⟩ := ih givenRest _
      refine ⟨item :: items, ⟨?_, ?_, ?_⟩, ?_⟩
      · rw [List.filterMap_cons_some isOption, List.map_cons, List.map_cons, isNamed,
          written.names]
      · rw [List.filterMap_cons_some isOption, List.forall_mem_cons]
        refine ⟨fun tag same => ?_, written.tells⟩
        rw [← OptionTag.word_inj (isNamed.symm.trans same)]
        exact tells
      · rw [List.filterMap_cons_none noArgument, written.arguments]
      · rw [List.flatMap_cons, List.cons_append, lexFrom_cons_of_isLayout (by decide), first,
          later]
        rfl

/-! ## The source with the options -/

/-- A source with the options behind its only argument. -/
def OperatorOptions.sourceText (options : OperatorOptions) : String :=
  "read x " ++ options.text

/-- The derivation of such a source, with an item for each option. -/
def sourceTree (items : List ItemTree) : ProgramTree :=
  .chains (.last (.last (.proc
    ⟨⟨"read", ⟨0, 4⟩⟩, ⟨none, .term (.ident ⟨"x", ⟨5, 6⟩⟩), none⟩ :: items⟩)) none)

theorem tokens_sourceTree (items : List ItemTree) :
    (sourceTree items).tokens =
      ⟨.identifier "read", ⟨0, 4⟩⟩ :: ⟨.identifier "x", ⟨5, 6⟩⟩ ::
        items.flatMap ItemTree.tokens := by
  rw [sourceTree, ProgramTree.tokens, ChainTrees.tokens, Token.optional, List.append_nil]
  rfl

/-- The name of the source and its argument are read before whatever follows them. -/
theorem lex_source (rest : List Char) :
    lex ("read x".toList ++ ' ' :: rest) =
      ⟨[⟨.identifier "read", ⟨0, 4⟩⟩, ⟨.identifier "x", ⟨5, 6⟩⟩], []⟩ ++
        lexFrom 6 (' ' :: rest) := by
  have isRead : "read".toList ∈ Pattern.name := mem_name_of_all (by decide) (by decide)
  have isArgument : "x".toList ∈ Pattern.name := mem_name_of_all (by decide) (by decide)
  have proc : ReadsBefore (' ' :: ("x".toList ++ ' ' :: rest)) "read".toList
      (.identifier "read") :=
    readsBefore_identifier isRead fun c first => Option.some.inj first ▸ by decide
  have argument : ReadsBefore (' ' :: rest) "x".toList (.identifier "x") :=
    readsBefore_identifier isArgument fun c first => Option.some.inj first ▸ by decide
  have whole : "read x".toList ++ ' ' :: rest =
      "read".toList ++ ' ' :: ("x".toList ++ ' ' :: rest) := rfl
  rw [lex_eq_lexFrom, whole, proc, lexFrom_cons_of_isLayout (by decide), argument,
    ← Lexing.append_assoc]
  rfl

theorem OperatorOptions.lexFrom_text (options : OperatorOptions) (offset : Nat) :
    lexFrom offset (' ' :: options.text.toList) =
      lexFrom offset (options.given.flatMap fun option => ' ' :: option.text.toList) := by
  rw [text, parts_eq]
  cases given : options.given with
  | nil => exact lexFrom_cons_of_isLayout (by decide) offset []
  | cons option rest =>
      rw [Text.cons_toList_intercalate (by simp), List.flatMap_map]

theorem OperatorOptions.Readable.exists_sourceTree {options : OperatorOptions}
    (readable : options.Readable) :
    ∃ items, WrittenAs options options.given items ∧
      lex options.sourceText.toList = ⟨(sourceTree items).tokens, []⟩ := by
  obtain ⟨items, written, lexed⟩ := readable.exists_items (fun _ => id) 6
  have whole : options.sourceText.toList = "read x".toList ++ ' ' :: options.text.toList := by
    rw [sourceText, String.toList_append]
    rfl
  refine ⟨items, written, ?_⟩
  rw [whole, lex_source, options.lexFrom_text, lexed, tokens_sourceTree]
  rfl

namespace WrittenAs

variable {options : OperatorOptions} {items : List ItemTree} {call : ProcCall}
  (written : WrittenAs options options.given items)
  (isOptions : call.options = items.filterMap ItemTree.option?)

include written isOptions

theorem gives_iff (tag : OptionTag) :
    call.Gives tag.word ↔ (options.shown? tag).isSome = true := by
  have named : call.Gives tag.word ↔
      tag.word ∈ options.given.map fun option => option.tag.word := by
    rw [← written.names, ← isOptions, List.mem_map]
    rfl
  rw [named, List.mem_map, Option.isSome_iff_exists]
  constructor
  · rintro ⟨⟨other, value⟩, isGiven, same⟩
    obtain rfl := OptionTag.word_inj same
    exact ⟨value, OperatorOptions.mem_given.mp isGiven⟩
  · rintro ⟨value, isShown⟩
    exact ⟨⟨tag, value⟩, OperatorOptions.mem_given.mpr isShown, rfl⟩

theorem nodup_names : (call.options.map fun option => option.name.name).Nodup := by
  rw [isOptions, written.names, OperatorOptions.given, List.map_filterMap]
  refine List.Nodup.filterMap ?_ (by decide)
  intro first second name isFirst isSecond
  simp only [Option.map_map, Option.mem_def, Option.map_eq_some_iff] at isFirst isSecond
  obtain ⟨_, _, named⟩ := isFirst
  obtain ⟨_, _, same⟩ := isSecond
  exact OptionTag.word_inj (named.trans same.symm)

theorem wellTyped (readable : options.Readable) :
    ∀ option ∈ call.options, option.WellTyped := by
  intro option member
  have isNamed := List.mem_map_of_mem (f := fun option => option.name.name) member
  rw [isOptions, written.names, List.mem_map] at isNamed
  obtain ⟨⟨tag, value⟩, isGiven, named⟩ := isNamed
  have tells := written.tells option (isOptions ▸ member) tag named.symm
  rw [OperatorOptions.mem_given] at isGiven
  cases tag <;>
    obtain ⟨given, isValue, -⟩ := Option.map_eq_some_iff.mp isGiven <;>
    simp only [ProcOption.WellTyped, ← named, OptionTag.word]
  case fromMoment =>
    exact ⟨given, Expr.moment?_eq_some_iff.mp (tells.trans isValue),
      (readable.fromMoment given isValue).1⟩
  case toMoment => exact ⟨given, Expr.moment?_eq_some_iff.mp (tells.trans isValue)⟩
  case last | every =>
    exact ⟨given, Expr.positiveDuration?_eq_some_iff.mp (tells.trans isValue)⟩
  case limit => exact Expr.exists_count?_iff.mp ⟨given, tells.trans isValue⟩

/-- A call of a source with an argument is valid with these options. -/
theorem validFor (readable : options.Readable) (nonempty : call.arguments ≠ []) :
    call.ValidFor .read where
  distinct := written.nodup_names isOptions
  accepted _ _ := rfl
  arguments := nonempty
  typed := written.wellTyped isOptions readable
  trailing given := by
    have isLast := (written.gives_iff isOptions .last).mp given
    obtain ⟨noFrom, noTo⟩ := readable.trailing (by simpa [OperatorOptions.shown?] using isLast)
    have notGiven (tag : OptionTag) (absent : options.shown? tag = none) :
        ¬ call.Gives tag.word := by
      rw [written.gives_iff isOptions tag, absent]
      exact Bool.false_ne_true
    exact ⟨notGiven .fromMoment (by rw [OperatorOptions.shown?, noFrom]; rfl),
      notGiven .toMoment (by rw [OperatorOptions.shown?, noTo]; rfl)⟩
  meets := trivial

theorem givenOptions_eq : call.givenOptions = options := by
  have tells (tag : OptionTag) : ∀ option ∈ call.options, option.name.name = tag.word →
      tag.Tells options option.value :=
    fun option member named => written.tells option (isOptions ▸ member) tag named
  have given (tag : OptionTag) (isShown : (options.shown? tag).isSome = true) :
      call.Gives tag.word :=
    (written.gives_iff isOptions tag).mpr isShown
  obtain ⟨fromMoment, toMoment, last, every, limit⟩ := options
  rw [ProcCall.givenOptions, OperatorOptions.mk.injEq]
  refine ⟨said_eq (tells .fromMoment) fun isSome => given .fromMoment ?_,
    said_eq (tells .toMoment) fun isSome => given .toMoment ?_,
    said_eq (tells .last) fun isSome => given .last ?_,
    said_eq (tells .every) fun isSome => given .every ?_,
    said_eq (tells .limit) fun isSome => given .limit ?_⟩ <;>
  simpa [OperatorOptions.shown?] using isSome

end WrittenAs

/-! ## Main result -/

/-- The source with the options is read without any fault, and its operator has the options. -/
def OperatorOptions.ReadsBack (options : OperatorOptions) : Prop :=
  (lex options.sourceText.toList).strays = [] ∧
    ∃ (program : Program) (source : Operator) (span : Span),
      parse options.sourceText.toList = ⟨some program, []⟩ ∧
        program.operators.diagnostics = [] ∧
        program.operators.value = [⟨[.step source], span⟩] ∧
        source.kind = .source ∧ source.options = options

/-- A program of a single call that is reported nothing about has the operator of the call. -/
theorem Stage.branchOperators_single {call : ProcCall} {operator : Operator}
    (clean : call.operator?.diagnostics = []) (value : call.operator?.value = some operator)
    (span : Span) :
    (branchOperators [⟨[step call], span⟩]).diagnostics = [] ∧
      (branchOperators [⟨[step call], span⟩]).value = [⟨[step operator], span⟩] := by
  simp [branchOperators, chainOperators, operators, clean, value]

theorem OperatorOptions.Readable.readsBack {options : OperatorOptions}
    (readable : options.Readable) : options.ReadsBack := by
  obtain ⟨items, written, lexed⟩ := readable.exists_sourceTree
  have clean : (lex options.sourceText.toList).strays = [] := by rw [lexed]
  have derived : (sourceTree items).tokens = (lex options.sourceText.toList).tokens := by
    rw [lexed]
  have parsed := parse_eq_of_tokens clean derived
  generalize afterTrivia options.sourceText.toList = reach at parsed
  let call := ProcTree.call reach
    ⟨⟨"read", ⟨0, 4⟩⟩, ⟨none, .term (.ident ⟨"x", ⟨5, 6⟩⟩), none⟩ :: items⟩
  have isOptions : call.options = items.filterMap ItemTree.option? := rfl
  have valid := written.validFor isOptions readable (List.cons_ne_nil _ _)
  have quiet : call.operator?.diagnostics = [] :=
    (ProcCall.operator?_clean_iff call).mpr ⟨.read, rfl, valid⟩
  have value : call.operator?.value = some ⟨"read", .source, options, call.span⟩ := by
    rw [ProcCall.operator?_value valid.distinct, ← written.givenOptions_eq isOptions]
    rfl
  have lowering := Stage.branchOperators_single quiet value
  exact ⟨clean, _, _, _, parsed, (lowering _).1, (lowering _).2, rfl, rfl⟩

/-- The text of options that read back tells the options. -/
theorem OperatorOptions.ReadsBack.inj {options others : OperatorOptions}
    (readsBack : options.ReadsBack) (readsBackOthers : others.ReadsBack)
    (same : options.text = others.text) : options = others := by
  obtain ⟨-, program, source, span, parsed, -, value, -, rfl⟩ := readsBack
  obtain ⟨-, again, other, place, parsedAgain, -, valueAgain, -, rfl⟩ := readsBackOthers
  rw [sourceText, same] at parsed
  obtain rfl := Option.some.inj (congrArg Parse.program (parsed.symm.trans parsedAgain))
  have steps := congrArg Stage.branchSteps (value.symm.trans valueAgain)
  obtain rfl : source = other := by
    simpa [Stage.branchSteps, Stage.chainSteps, Stage.steps] using steps
  rfl

/--
The options of an operator whose program is turned into operators without an error read back,
and no other such operator has other options with the same text.
-/
theorem options_read_back {program : Program} {operator : Operator}
    (lowers : program.Lowers operator) :
    operator.options.ReadsBack ∧
      ∀ (other : Program) (another : Operator), other.Lowers another →
        another.options.text = operator.options.text → another.options = operator.options :=
  ⟨lowers.readable.readsBack, fun _ _ lowersOther same =>
    lowersOther.readable.readsBack.inj lowers.readable.readsBack same⟩

/-- The numbers of a program that was read fit, so that only its diagnostics count. -/
theorem lowers_of_parse {text : List Char} {program : Program} {operator : Operator}
    (parsed : (parse text).program = some program) (clean : program.operators.diagnostics = [])
    (member : operator ∈ Stage.branchSteps program.operators.value) : program.Lowers operator :=
  ⟨numbersFit_of_parse parsed, clean, member⟩

/-- A source from the past to before the epoch, with a window and a count that are too large. -/
def saturatedText : List Char :=
  "read x -from :1.5s ago: -to :-86400: -every :1000000000000d: -limit 99999999999999999999".toList

/-- The window and the count are shown as the largest words, and read back as these. -/
theorem options_read_back_saturated :
    ∃ program operator, (parse saturatedText).program = some program ∧
      program.Lowers operator ∧
      operator.options.text = "-from :1500ms ago: -to :-86400: " ++
        "-every :18446744073709551615ms: -limit 18446744073709551615" ∧
      operator.options.ReadsBack := by
  have evaluated : ((parse saturatedText).program.map fun program =>
      (program.operators.diagnostics.isEmpty,
        (Stage.branchSteps program.operators.value).map fun operator => operator.options.text)) =
      some (true, ["-from :1500ms ago: -to :-86400: " ++
        "-every :18446744073709551615ms: -limit 18446744073709551615"]) := by
    decide +kernel
  obtain ⟨program, parsed, facts⟩ := Option.map_eq_some_iff.mp evaluated
  obtain ⟨clean, texts⟩ := Prod.mk.inj facts
  obtain ⟨operator, steps, text⟩ := List.map_eq_singleton_iff.mp texts
  have lowers : program.Lowers operator :=
    lowers_of_parse parsed (List.isEmpty_iff.mp clean) (steps ▸ List.mem_singleton_self operator)
  exact ⟨program, operator, parsed, lowers, text, (options_read_back lowers).1⟩

end Flowgraph
