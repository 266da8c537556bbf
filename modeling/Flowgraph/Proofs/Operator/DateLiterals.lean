import Flowgraph.Proofs.Operator.ReadBack
import Flowgraph.Proofs.Time.Calendar

/-!
# Dates in programs

A date can be written between colons wherever a moment is asked for, and the source of which it
is the beginning has this moment among its options.  A time of the day cannot be written there,
although it would be read: its hours and minutes are told apart by a colon, and the literal ends
at the first one (`date_literal_iff`).

What is needed of a date is which characters it consists of (`Calendar.mem_of_readParts?`), and
that nothing else is tried with success before it (`Calendar.read?_of_readSeconds?`).
-/

namespace Flowgraph

open Number Text

/-! ## Characters of numbers and dates -/

namespace Text

/-- There is a first part, and the parts with the separator between them are the text. -/
theorem exists_splitAtEach (separator : Char) (text : List Char) :
    ∃ first others, splitAtEach separator text = first :: others ∧
      text = first ++ others.flatMap fun part => separator :: part := by
  induction text with
  | nil => exact ⟨[], [], rfl, rfl⟩
  | cons c rest ih =>
      obtain ⟨first, others, parts, joined⟩ := ih
      rw [splitAtEach, parts]
      split_ifs with isSeparator
      · refine ⟨[], first :: others, rfl, ?_⟩
        rw [List.nil_append, List.flatMap_cons, List.cons_append, ← joined, isSeparator]
      · refine ⟨c :: first, others, rfl, ?_⟩
        rw [List.cons_append, ← joined]

/-- What holds of the separator and of the characters of all parts holds of the whole text. -/
theorem forall_mem_of_splitAtEach {holds : Char → Prop} {separator : Char} {text : List Char}
    (isSeparator : holds separator)
    (each : ∀ part ∈ splitAtEach separator text, ∀ c ∈ part, holds c) : ∀ c ∈ text, holds c := by
  obtain ⟨first, others, parts, joined⟩ := exists_splitAtEach separator text
  rw [parts, List.forall_mem_cons] at each
  rw [joined, List.forall_mem_append]
  refine ⟨each.1, fun c member => ?_⟩
  obtain ⟨part, isPart, inPart⟩ := List.mem_flatMap.mp member
  rcases List.mem_cons.mp inPart with rfl | later
  · exact isSeparator
  · exact each.2 part isPart c later

/-- The parts before and after a place where the separator stands, with it, are the text. -/
theorem eq_of_splitAtFirst {separator : Char} {text before : List Char}
    {after : Option (List Char)} (parts : splitAtFirst separator text = (before, after)) :
    text = before ++ (after.map (separator :: ·)).getD [] := by
  obtain ⟨rfl, rfl⟩ := Prod.mk.inj parts
  have split := List.takeWhile_append_dropWhile (p := (· != separator)) (l := text)
  have stops := List.head?_dropWhile_not (· != separator) text
  cases dropped : text.dropWhile (· != separator) with
  | nil => rwa [dropped, eq_comm] at split
  | cons c after =>
      have isSeparator : c = separator := by simpa [dropped] using stops
      rwa [dropped, eq_comm, isSeparator] at split

theorem exists_of_beforeEnding? (ending text : List Char) :
    ∃ kept, text = (beforeEnding? ending text).getD text ++ kept ∧ (kept = [] ∨ kept = ending) := by
  rw [beforeEnding?]
  split_ifs with ends
  · obtain ⟨before, rfl⟩ := List.isSuffixOf_iff_suffix.mp ends
    exact ⟨ending, by simp, .inr rfl⟩
  · exact ⟨[], by simp, .inl rfl⟩

end Text

namespace Number

/-- A digit or a sign. -/
def IsDigitOrSign (c : Char) : Prop :=
  c.isDigit = true ∨ c = '+' ∨ c = '-'

theorem isDigitOrSign_of_readUnsigned {bits : Nat} {text : List Char} {number : Nat}
    (read : readUnsigned bits text = some number) : ∀ c ∈ text, IsDigitOrSign c := by
  obtain ⟨value, -⟩ := Option.filter_eq_some_iff.mp read
  have digits := (isDigit_of_readNatural value).2
  intro c member
  split at digits
  case h_1 rest =>
    rcases List.mem_cons.mp member with rfl | later
    · exact .inr (.inl rfl)
    · exact .inl (digits c later)
  case h_2 => exact .inl (digits c member)

/-- A number with a sign has digits behind the sign. -/
theorem exists_digits_of_readSigned {bits : Nat} {text : List Char} {number : Int}
    (read : readSigned bits text = some number) :
    ∃ first rest, text = first :: rest ∧ IsDigitOrSign first ∧ ∀ c ∈ rest, c.isDigit = true := by
  simp only [readSigned] at read
  obtain ⟨value, -⟩ := Option.filter_eq_some_iff.mp read
  split at value
  case h_1 rest =>
    obtain ⟨natural, found, -⟩ := Option.map_eq_some_iff.mp value
    exact ⟨'+', rest, rfl, .inr (.inl rfl), (isDigit_of_readNatural found).2⟩
  case h_2 rest =>
    obtain ⟨magnitude, isMagnitude, -⟩ := Option.map_eq_some_iff.mp value
    obtain ⟨natural, found, -⟩ := Option.bind_eq_some_iff.mp isMagnitude
    exact ⟨'-', rest, rfl, .inr (.inr rfl), (isDigit_of_readNatural found).2⟩
  case h_3 =>
    obtain ⟨natural, found, -⟩ := Option.map_eq_some_iff.mp value
    obtain ⟨nonempty, digits⟩ := isDigit_of_readNatural found
    obtain ⟨first, rest, rfl⟩ := List.exists_cons_of_ne_nil nonempty
    obtain ⟨isDigit, digitsRest⟩ := List.forall_mem_cons.mp digits
    exact ⟨first, rest, rfl, .inl isDigit, digitsRest⟩

theorem isDigitOrSign_of_readSigned {bits : Nat} {text : List Char} {number : Int}
    (read : readSigned bits text = some number) : ∀ c ∈ text, IsDigitOrSign c := by
  obtain ⟨first, rest, rfl, sign, digits⟩ := exists_digits_of_readSigned read
  exact List.forall_mem_cons.mpr ⟨sign, fun c member => .inl (digits c member)⟩

end Number

namespace Calendar

/-- The characters of dates and times: digits, signs, two letters and the colon. -/
def IsDateChar (c : Char) : Prop :=
  IsDigitOrSign c ∨ c ∈ ['T', 'Z', ':']

/-- A date begins with its year, and a dash follows. -/
theorem exists_of_readDate? {text : List Char} {date : Int × Nat × Nat}
    (read : readDate? text = some date) :
    (∃ first rest, text = first :: rest ∧ IsDigitOrSign first ∧ '-' ∈ rest) ∧
      ∀ c ∈ text, IsDigitOrSign c := by
  rw [readDate?] at read
  split at read
  case h_2 => cases read
  case h_1 yearText monthText dayText parts =>
    simp only [Option.bind_eq_bind, Option.bind_eq_some_iff] at read
    obtain ⟨year, readYear, month, readMonth, day, readDay, -⟩ := read
    constructor
    · obtain ⟨first, rest, rfl, sign, -⟩ := exists_digits_of_readSigned readYear
      obtain ⟨yearText, others, found, joined⟩ := exists_splitAtEach '-' text
      obtain ⟨rfl, rfl⟩ := List.cons.inj (found.symm.trans parts)
      exact ⟨first, _, joined, sign, by simp⟩
    · refine forall_mem_of_splitAtEach (.inr (.inr rfl)) ?_
      rw [parts]
      simp only [List.forall_mem_cons, List.not_mem_nil, false_imp_iff, implies_true, and_true]
      exact ⟨isDigitOrSign_of_readSigned readYear, isDigitOrSign_of_readUnsigned readMonth,
        isDigitOrSign_of_readUnsigned readDay⟩

/-- A time of the day has a colon. -/
theorem colon_mem_of_readTime? {text : List Char} {second : Int}
    (read : readTime? text = some second) : ':' ∈ text := by
  by_contra absent
  rw [readTime?, splitAtEach_of_not_mem absent] at read
  cases read

theorem isDateChar_of_readTime? {text : List Char} {second : Int}
    (read : readTime? text = some second) : ∀ c ∈ text, IsDateChar c := by
  have number {part : List Char} {value : Int} (read : readSigned 64 part = some value) :
      ∀ c ∈ part, IsDateChar c :=
    fun c member => .inl (isDigitOrSign_of_readSigned read c member)
  have colon : IsDateChar ':' := .inr (by decide)
  refine forall_mem_of_splitAtEach colon ?_
  rw [readTime?] at read
  split at read
  case h_1 hourText minuteText parts =>
    simp only [Option.bind_eq_bind, Option.bind_eq_some_iff] at read
    obtain ⟨hour, readHour, minute, readMinute, -⟩ := read
    rw [parts]
    simp only [List.forall_mem_cons, List.not_mem_nil, false_imp_iff, implies_true, and_true]
    exact ⟨number readHour, number readMinute⟩
  case h_2 hourText minuteText secondText parts =>
    simp only [Option.bind_eq_bind, Option.bind_eq_some_iff] at read
    obtain ⟨hour, readHour, minute, readMinute, second, readSecond, -⟩ := read
    rw [parts]
    simp only [List.forall_mem_cons, List.not_mem_nil, false_imp_iff, implies_true, and_true]
    exact ⟨number readHour, number readMinute, number readSecond⟩
  case h_3 => cases read

/-- A text that is accepted is a date, maybe a letter and a time, and maybe another letter. -/
theorem exists_split_of_readParts? {text : List Char} {date : Date} {second : Int}
    (read : readParts? text = some (date, second)) :
    ∃ dateText timeText zone, text = dateText ++ (timeText.map ('T' :: ·)).getD [] ++ zone ∧
      readDate? dateText = some (date.year, date.month, date.day) ∧
      readSecond? timeText = some second ∧ (zone = [] ∨ zone = ['Z']) := by
  obtain ⟨dateText, timeText, parts, readDate, readSecond⟩ := readParts?_eq_some_iff.mp read
  obtain ⟨zone, whole, isZone⟩ := exists_of_beforeEnding? ['Z'] text
  rw [eq_of_splitAtFirst parts] at whole
  exact ⟨dateText, timeText, zone, whole, readDate, readSecond, isZone⟩

/-- A text that is accepted begins with a year and a dash, and has no other characters. -/
theorem exists_of_readParts? {text : List Char} {date : Date} {second : Int}
    (read : readParts? text = some (date, second)) :
    (∃ first rest, text = first :: rest ∧ IsDigitOrSign first ∧ '-' ∈ rest) ∧
      ∀ c ∈ text, IsDateChar c := by
  obtain ⟨dateText, timeText, zone, whole, readDate, readSecond, isZone⟩ :=
    exists_split_of_readParts? read
  obtain ⟨⟨first, rest, rfl, sign, dash⟩, dateChars⟩ := exists_of_readDate? readDate
  constructor
  · refine ⟨first, _, whole, sign, ?_⟩
    simp [dash]
  · have zoneChars : ∀ c ∈ zone, IsDateChar c := by
      rcases isZone with rfl | rfl
      · simp
      · exact List.forall_mem_singleton.mpr (.inr (by decide))
    have timeChars : ∀ c ∈ (timeText.map ('T' :: ·)).getD [], IsDateChar c := by
      cases timeText with
      | none => simp
      | some time =>
          exact List.forall_mem_cons.mpr ⟨.inr (by decide), isDateChar_of_readTime? readSecond⟩
    rw [whole]
    simp only [List.forall_mem_append]
    exact ⟨⟨fun c member => .inl (dateChars c member), timeChars⟩, zoneChars⟩

/-- The texts with a colon are those with a time. -/
theorem colon_mem_iff_of_readParts? {text : List Char} {date : Date} {second : Int}
    (read : readParts? text = some (date, second)) : ':' ∈ text ↔ 'T' ∈ text := by
  obtain ⟨dateText, timeText, zone, rfl, readDate, readSecond, isZone⟩ :=
    exists_split_of_readParts? read
  obtain ⟨-, dateChars⟩ := exists_of_readDate? readDate
  have noColonInDate : ':' ∉ dateText := fun member =>
    absurd (dateChars ':' member) (by simp [IsDigitOrSign])
  have noLetterInDate : 'T' ∉ dateText := fun member =>
    absurd (dateChars 'T' member) (by simp [IsDigitOrSign])
  have outsideZone : ':' ∉ zone ∧ 'T' ∉ zone := by
    rcases isZone with rfl | rfl <;> decide
  cases timeText with
  | none => simp [noColonInDate, noLetterInDate, outsideZone]
  | some time => simp [colon_mem_of_readTime? readSecond]

theorem IsDateChar.visible {c : Char} (isDateChar : IsDateChar c) : isBlank c = false := by
  rcases isDateChar with (isDigit | rfl | rfl) | isMark
  · exact isBlank_of_isDigit isDigit
  · decide
  · decide
  · simp only [List.mem_cons, List.not_mem_nil, or_false] at isMark
    rcases isMark with rfl | rfl | rfl <;> rfl

theorem IsDateChar.ne_of_isLower {c other : Char} (isDateChar : IsDateChar c)
    (isLower : other.isLower = true) : c ≠ other := by
  rintro rfl
  rcases isDateChar with (isDigit | rfl | rfl) | isMark
  · have noLetter : (c.isUpper || c.isLower) = false := isAlpha_eq_false_of_isDigit isDigit
    rw [isLower, Bool.or_true] at noLetter
    cases noLetter
  · cases isLower
  · cases isLower
  · simp only [List.mem_cons, List.not_mem_nil, or_false] at isMark
    rcases isMark with rfl | rfl | rfl <;> cases isLower

/-- A date is read as a moment before a duration is tried, and is no number by itself. -/
theorem read?_of_readSeconds? {text : List Char} {value : Int64}
    (accepted : readSeconds? text = some value) :
    Moment.read? text = some (.absolute value) := by
  have named := accepted
  rw [readSeconds?_eq] at named
  obtain ⟨⟨date, second⟩, parts, -⟩ := Option.map_eq_some_iff.mp named
  obtain ⟨⟨first, rest, begins, sign, dash⟩, chars⟩ := exists_of_readParts? parts
  have trimmed : trim text = text := trim_of_forall fun c member => (chars c member).visible
  have unnamed : ∀ c ∈ text.head?, c.isAlpha = false := by
    intro c isFirst
    rw [begins, List.head?_cons, Option.mem_some_iff] at isFirst
    subst isFirst
    rcases sign with isDigit | rfl | rfl
    · exact isAlpha_eq_false_of_isDigit isDigit
    · decide
    · decide
  have noAgo : 'a' ∉ text := fun member => (chars 'a' member).ne_of_isLower rfl rfl
  have noNumber : readSigned 64 text = none := by
    by_contra isNumber
    obtain ⟨number, read⟩ := Option.ne_none_iff_exists'.mp isNumber
    obtain ⟨_, _, same, -, digits⟩ := exists_digits_of_readSigned read
    obtain ⟨rfl, rfl⟩ := List.cons.inj (begins.symm.trans same)
    exact absurd (digits '-' dash) (by decide)
  rw [Moment.read?_of_unnamed trimmed unnamed, beforeEnding?_of_not_mem (by decide) noAgo, noNumber,
    accepted]
  rfl

end Calendar

/-! ## Dates between colons -/

namespace Calendar

/-- A text as the literal of a moment. -/
def literal (text : List Char) : List Char :=
  ':' :: (text ++ [':'])

/-- A source whose data begins at the moment of a text. -/
def sourceFrom (text : List Char) : List Char :=
  "read x -from ".toList ++ literal text

/-- The literal is read as one moment, and the source with it as one operator with this moment. -/
structure ReadsAsMoment (text : List Char) (value : Int64) : Prop where
  literal : lex (literal text) =
    ⟨[⟨.moment (String.ofList text), ⟨0, byteLength (literal text)⟩⟩], []⟩
  source : ∃ (program : Program) (source : Operator) (span : Span),
    parse (sourceFrom text) = ⟨some program, []⟩ ∧ program.operators.diagnostics = [] ∧
      program.operators.value = [⟨[.step source], span⟩] ∧ source.kind = .source ∧
      source.options = { fromMoment := some (.absolute value) }

/-- A part of a date without a colon is read as a moment between colons. -/
theorem readsBefore_literal {part : List Char} (nonempty : part ≠ [])
    (chars : ∀ c ∈ part, IsDateChar c) (noColon : ':' ∉ part) (after : List Char) :
    ReadsBefore after (literal part) (.moment (String.ofList part)) := by
  have isInner : (String.ofList part).toList ∈ Pattern.run Pattern.isMomentPart := by
    rw [String.toList_ofList]
    refine Pattern.mem_run_iff.mpr ⟨nonempty, fun c member => ?_⟩
    rw [Pattern.isMomentPart, Bool.and_eq_true, bne_iff_ne, bne_iff_ne]
    constructor
    · rintro rfl
      exact noColon member
    · rintro rfl
      exact absurd (chars _ member).visible (by decide)
  have trimmed : trim (String.ofList part).toList = (String.ofList part).toList := by
    rw [String.toList_ofList]
    exact trim_of_forall fun c member => (chars c member).visible
  have reads : ReadsBefore after (':' :: ((String.ofList part).toList ++ [':'])) _ :=
    readsBefore_moment isInner trimmed
  rwa [String.toList_ofList] at reads

/-- A date without a time is a single moment; with a time it ends at the first colon. -/
theorem lex_literal_iff {text : List Char} {date : Date} {second : Int}
    (named : readParts? text = some (date, second)) :
    lex (literal text) = ⟨[⟨.moment (String.ofList text), ⟨0, byteLength (literal text)⟩⟩], []⟩ ↔
      ':' ∉ text := by
  obtain ⟨⟨first, rest, begins, sign, -⟩, chars⟩ := exists_of_readParts? named
  have nonempty : text ≠ [] := begins ▸ List.cons_ne_nil first rest
  constructor
  · intro single colon
    obtain ⟨before, after, split, noColon⟩ := List.eq_append_cons_of_mem colon
    have beforeNonempty : before ≠ [] := by
      rintro rfl
      obtain ⟨rfl, -⟩ := List.cons.inj (begins.symm.trans split)
      rcases sign with isDigit | isPlus | isMinus
      · cases isDigit
      · cases isPlus
      · cases isMinus
    have beforeChars : ∀ c ∈ before, IsDateChar c :=
      fun c member => chars c (split ▸ List.mem_append_left _ member)
    have whole : literal text = literal before ++ (after ++ [':']) := by
      simp [literal, split]
    rw [lex_eq_lexFrom, whole, readsBefore_literal beforeNonempty beforeChars noColon] at single
    have tokens := congrArg Lexing.tokens single
    rw [Lexing.tokens_append] at tokens
    have same := congrArg PlacedToken.token (List.cons.inj tokens).1
    have shorter := String.ofList_inj.mp (Token.moment.inj same)
    rw [split] at shorter
    simp at shorter
  · intro noColon
    have whole := readsBefore_literal nonempty chars noColon [] 0
    rw [List.append_nil, lexFrom_nil, Nat.zero_add] at whole
    exact whole

/-- The option that such a source gives, as an item of its derivation. -/
def fromItem (text : List Char) : ItemTree :=
  ⟨some ⟨"from", ⟨7, 12⟩⟩,
    .term (.moment (String.ofList text) ⟨13, 13 + byteLength (literal text)⟩), none⟩

theorem lex_sourceFrom {text : List Char} (nonempty : text ≠ [])
    (chars : ∀ c ∈ text, IsDateChar c) (noColon : ':' ∉ text) :
    lex (sourceFrom text) = ⟨(sourceTree [fromItem text]).tokens, []⟩ := by
  have isFrom : "from".toList ∈ Pattern.name := mem_name_of_all (by decide) (by decide)
  have option : ReadsBefore (' ' :: literal text) ('-' :: "from".toList) (.optionName "from") :=
    readsBefore_optionName isFrom fun c first => Option.some.inj first ▸ by decide
  have whole : sourceFrom text =
      "read x".toList ++ ' ' :: (('-' :: "from".toList) ++ ' ' :: literal text) := rfl
  have moment := readsBefore_literal nonempty chars noColon []
  rw [whole, lex_source, lexFrom_cons_of_isLayout (by decide), option,
    lexFrom_cons_of_isLayout (by decide), ← List.append_nil (literal text), moment,
    tokens_sourceTree]
  rfl

/-- A call of a source that is given a beginning and nothing else is valid, and begins there. -/
theorem operator?_of_fromItem {text : List Char} {value : Int64}
    (accepted : readSeconds? text = some value) (reach : Nat → Nat) :
    let call := ProcTree.call reach
      ⟨⟨"read", ⟨0, 4⟩⟩, [⟨none, .term (.ident ⟨"x", ⟨5, 6⟩⟩), none⟩, fromItem text]⟩
    call.operator?.diagnostics = [] ∧
      call.operator?.value =
        some ⟨"read", .source, { fromMoment := some (.absolute value) }, call.span⟩ := by
  intro call
  have read := read?_of_readSeconds? accepted
  have said : (Expr.moment (String.ofList text) ⟨13, 13 + byteLength (literal text)⟩).moment? =
      some (.absolute value) := by
    rw [Expr.moment?, String.toList_ofList, read]
  have valid : call.ValidFor .read := {
    distinct := List.nodup_singleton _
    accepted := fun _ _ => rfl
    arguments := List.cons_ne_nil _ _
    typed := List.forall_mem_singleton.mpr
      ⟨.absolute value, Expr.moment?_eq_some_iff.mp said, by simp⟩
    trailing := by
      rintro ⟨option, member, named⟩
      obtain rfl := List.mem_singleton.mp member
      have same : "from" = "last" := named
      exact absurd same (by decide)
    meets := trivial }
  refine ⟨(ProcCall.operator?_clean_iff call).mpr ⟨.read, rfl, valid⟩, ?_⟩
  rw [ProcCall.operator?_value valid.distinct]
  have given : call.givenOptions = { fromMoment := some (.absolute value) } := by
    rw [← said]
    rfl
  rw [← given]
  rfl

/-! ## Main result -/

/--
Of the texts that are accepted as dates, those without a colon can be written in a program:
between colons they are one moment, and a source begins there.  The others are those with
a time of the day, and of them the literal ends at the first colon.
-/
theorem date_literal_iff {text : List Char} {value : Int64}
    (accepted : readSeconds? text = some value) :
    (ReadsAsMoment text value ↔ ':' ∉ text) ∧ (':' ∈ text ↔ 'T' ∈ text) := by
  have named := accepted
  rw [readSeconds?_eq] at named
  obtain ⟨⟨date, second⟩, parts, -⟩ := Option.map_eq_some_iff.mp named
  obtain ⟨⟨first, rest, begins, -⟩, chars⟩ := exists_of_readParts? parts
  have nonempty : text ≠ [] := begins ▸ List.cons_ne_nil first rest
  refine ⟨⟨fun reads => (lex_literal_iff parts).mp reads.literal, fun noColon => ?_⟩,
    colon_mem_iff_of_readParts? parts⟩
  refine ⟨(lex_literal_iff parts).mpr noColon, ?_⟩
  have lexed := lex_sourceFrom nonempty chars noColon
  have clean : (lex (sourceFrom text)).strays = [] := by rw [lexed]
  have derived : (sourceTree [fromItem text]).tokens = (lex (sourceFrom text)).tokens := by
    rw [lexed]
  obtain ⟨quiet, value⟩ := operator?_of_fromItem accepted (afterTrivia (sourceFrom text))
  have lowering := Stage.branchOperators_single quiet value
  exact ⟨_, _, _, parse_eq_of_tokens clean derived, (lowering _).1, (lowering _).2, rfl, rfl⟩

/-- A day can be written down with its zone, but not a minute of it. -/
theorem date_literal_iff_newYear :
    ReadsAsMoment "2014-01-01Z".toList 1388534400 ∧
      ¬ ReadsAsMoment "2014-01-01T00:01Z".toList 1388534460 := by
  have day : readSeconds? "2014-01-01Z".toList = some 1388534400 := by decide +kernel
  have minute : readSeconds? "2014-01-01T00:01Z".toList = some 1388534460 := by decide +kernel
  exact ⟨(date_literal_iff day).1.mpr (by decide),
    fun reads => (date_literal_iff minute).1.mp reads (by decide)⟩

/--
A date with a time of the day is accepted, but between colons it is three tokens, and a source
that is to begin there is told that its option has no value.
-/
theorem time_literal_divided :
    ¬ (∀ text value, readSeconds? text = some value → ReadsAsMoment text value) ∧
      (readSeconds? "2014-01-01T00:01:30Z".toList).isSome ∧
      (lex (literal "2014-01-01T00:01:30Z".toList)).tokens.map PlacedToken.token =
        [.moment "2014-01-01T00", .number (Binary64.ofDecimal false 1 0), .moment "30Z"] ∧
      (parse (sourceFrom "2014-01-01T00:01:30Z".toList)).program.map (fun program =>
        program.operators.diagnostics.map Diagnostic.code) = some [some .invalidOptionValue] := by
  have accepted : (readSeconds? "2014-01-01T00:01:30Z".toList).isSome := by decide +kernel
  have tokens : (lex (literal "2014-01-01T00:01:30Z".toList)).tokens.map PlacedToken.token =
      [.moment "2014-01-01T00", .number (Binary64.ofDecimal false 1 0), .moment "30Z"] := by
    decide +kernel
  refine ⟨fun all => ?_, accepted, tokens, by decide +kernel⟩
  obtain ⟨value, read⟩ := Option.isSome_iff_exists.mp accepted
  rw [(all _ value read).literal] at tokens
  exact absurd tokens (by decide +kernel)

end Calendar

end Flowgraph
