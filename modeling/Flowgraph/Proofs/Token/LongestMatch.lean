import Flowgraph.Proofs.Text.Marked
import Flowgraph.Proofs.Token.Pattern

/-!
# The longest match

The piece that is cut off a text is compared with the patterns.  A token matches its own
pattern, and cut out of the text it is read as the same token again (`scan_isolated`).  No
longer beginning of the text matches any pattern, and a stray piece begins where no
pattern matches at all, unless it is a literal without a meaning (`covers_of_isLexeme`).
-/

namespace Flowgraph

open scoped Computability
open Pattern

/-- The texts that a token is written as, whatever its value. -/
def Token.pattern : Token → Language Char
  | .bar => word ['|']
  | .semicolon => word [';']
  | .openParenthesis => word ['(']
  | .closeParenthesis => word [')']
  | .comma => word [',']
  | .comparison operator => word operator.text.toList
  | .optionName _ => Pattern.option
  | .number _ => Pattern.number
  | .string _ => Pattern.string
  | .moment _ => Pattern.moment
  | .identifier _ => Pattern.name

/-- Texts that match a pattern: that of a token, of blanks or of a comment. -/
def IsLexeme (text : List Char) : Prop :=
  text ∈ blanks ∨ text ∈ comment ∨ ∃ token : Token, text ∈ token.pattern

/--
Literals that match a pattern and still mean nothing: a string with an escape that is not
known, and a moment that is all blank.
-/
def Meaningless (text : List Char) : Prop :=
  (∃ before ∈ stringBody, ∃ escaped after, escaped ∉ ['"', '\\', 'n', 't'] ∧
      text = '"' :: (before ++ '\\' :: escaped :: (after ++ ['"'])) ∧ text ∈ Pattern.string) ∨
    ∃ inner, (∀ c ∈ inner, Text.isBlank c = true) ∧ text = ':' :: (inner ++ [':']) ∧
      text ∈ Pattern.moment

/-! ## Runs of characters -/

section Runs

variable {holds : Char → Bool} {run rest : List Char}

/-- A run at the beginning of a text is part of the longest one. -/
theorem length_le_takeWhile (every : ∀ c ∈ run, holds c = true) (begins : run <+: rest) :
    run.length ≤ (rest.takeWhile holds).length := by
  obtain ⟨after, rfl⟩ := begins
  rw [List.takeWhile_append_of_pos every, List.length_append]
  exact Nat.le_add_right _ _

/-- The longest run ends before a character of another kind. -/
theorem takeWhile_append_stop (every : ∀ c ∈ run, holds c = true)
    (stops : ∀ c ∈ rest.head?, holds c = false) : (run ++ rest).takeWhile holds = run := by
  rw [List.takeWhile_append_of_pos every]
  cases rest with
  | nil => simp
  | cons c later => simp [stops c rfl]

/-- The characters up to the first that fails a test make up a run. -/
theorem takeWhile_mem_many (holds : Char → Bool) (rest : List Char) :
    rest.takeWhile holds ∈ (one holds)∗ :=
  mem_many_iff.mpr fun _ member => List.mem_takeWhile_imp member

end Runs

/-! ## Numbers -/

section Numbers

variable {whole places rest : List Char}

/-- A fraction does not begin with a digit. -/
theorem fraction_stops (isFraction : places ∈ fraction) :
    ∀ c ∈ places.head?, Char.isDigit c = false := by
  rcases mem_fraction_iff.mp isFraction with rfl | ⟨digits, -, rfl⟩
  · simp
  · intro c first
    obtain rfl := Option.some.inj first
    decide

/-- Digits and a fraction at the beginning of a text belong to its number. -/
theorem length_le_numberExtent (digits : ∀ c ∈ whole, Char.isDigit c = true)
    (isFraction : places ∈ fraction) (begins : whole ++ places <+: rest) :
    (whole ++ places).length ≤ numberExtent rest := by
  obtain ⟨after, rfl⟩ := begins
  rcases mem_fraction_iff.mp isFraction with rfl | ⟨more, isRun, rfl⟩
  · rw [List.append_nil, numberExtent]
    have atLeast := length_le_takeWhile digits (List.prefix_append whole after)
    split
    · dsimp only
      split_ifs <;> omega
    · exact atLeast
  · obtain ⟨nonempty, moreDigits⟩ := mem_run_iff.mp isRun
    have stops : ∀ c ∈ (('.' :: more) ++ after).head?, Char.isDigit c = false :=
      fun c first => Option.some.inj first ▸ by decide
    have split : (whole ++ ('.' :: more ++ after)).takeWhile Char.isDigit = whole :=
      takeWhile_append_stop digits stops
    have atLeast := length_le_takeWhile moreDigits (List.prefix_append more after)
    have some : (more ++ after).takeWhile Char.isDigit ≠ [] := by
      intro empty
      rw [empty, List.length_nil] at atLeast
      exact nonempty (List.eq_nil_of_length_eq_zero (Nat.le_zero.mp atLeast))
    rw [List.append_assoc, numberExtent, split, List.drop_left]
    simp only [List.cons_append, if_neg some, List.length_append, List.length_cons]
    omega

/-- What continues a number is digits and a fraction. -/
theorem exists_of_numberExtent (rest : List Char) :
    ∃ whole places, (∀ c ∈ whole, Char.isDigit c = true) ∧ places ∈ fraction ∧
      rest.take (numberExtent rest) = whole ++ places := by
  have digits : ∀ c ∈ rest.takeWhile Char.isDigit, Char.isDigit c = true :=
    fun _ member => List.mem_takeWhile_imp member
  have noFraction : ∃ whole places, (∀ c ∈ whole, Char.isDigit c = true) ∧ places ∈ fraction ∧
      rest.take (rest.takeWhile Char.isDigit).length = whole ++ places :=
    ⟨_, [], digits, mem_fraction_iff.mpr (.inl rfl), by rw [take_takeWhile, List.append_nil]⟩
  rw [numberExtent]
  split
  case h_1 more point =>
    dsimp only
    split_ifs with empty
    · exact noFraction
    · refine ⟨_, '.' :: more.takeWhile Char.isDigit, digits, mem_fraction_iff.mpr (.inr
        ⟨_, mem_run_iff.mpr ⟨empty, fun _ member => List.mem_takeWhile_imp member⟩, rfl⟩), ?_⟩
      rw [Nat.add_assoc, List.take_add, take_takeWhile, point, Nat.add_comm 1,
        List.take_succ_cons, take_takeWhile]
  case h_2 => exact noFraction

/-- The digits of a number denote a value. -/
theorem exists_read_of_mem_number {text : List Char} (isNumber : text ∈ Pattern.number) :
    ∃ value, Number.Binary64.read text = some value := by
  obtain ⟨whole, digits, places, isFraction, split⟩ := mem_number_iff.mp isNumber
  obtain ⟨nonempty, every⟩ := mem_run_iff.mp digits
  obtain ⟨c, later, rfl⟩ := List.exists_cons_of_ne_nil nonempty
  obtain ⟨digit, everyLater⟩ := List.forall_mem_cons.mp every
  have noMinus : c ≠ '-' := by rintro rfl; exact absurd digit (by decide)
  have noPlus : c ≠ '+' := by rintro rfl; exact absurd digit (by decide)
  have taken := takeWhile_append_stop everyLater (fraction_stops isFraction)
  have dropped : (later ++ places).dropWhile Char.isDigit = places := by
    rw [← drop_takeWhile, taken, List.drop_left]
  have value : places = [] ∨ ∃ more, places = '.' :: more ∧ more.all Char.isDigit = true := by
    rcases mem_fraction_iff.mp isFraction with rfl | ⟨more, isRun, rfl⟩
    · exact .inl rfl
    · exact .inr ⟨more, rfl, List.all_eq_true.mpr (mem_run_iff.mp isRun).2⟩
  rcases split with rfl | rfl <;>
    simp only [Number.Binary64.read, List.cons_append, List.takeWhile_cons, List.dropWhile_cons,
      digit, if_true, taken, dropped, eq_false noMinus, eq_false noPlus, List.cons.injEq,
      false_and, false_imp_iff, implies_true, reduceCtorEq, if_false] <;>
    rcases value with rfl | ⟨more, rfl, all⟩
  · exact ⟨_, rfl⟩
  · simp only [all]
    exact ⟨_, rfl⟩
  · exact ⟨_, rfl⟩
  · simp only [all]
    exact ⟨_, rfl⟩

/-- A digit, or a minus sign before one. -/
def BeginsNumber (first : Char) (rest : List Char) : Prop :=
  first.isDigit = true ∨ first = '-' ∧ ∃ c ∈ rest.head?, Char.isDigit c = true

/-- A number that begins with a digit has at least that digit. -/
theorem numberExtent_pos {c : Char} (digit : c.isDigit = true) (later : List Char) :
    0 < numberExtent (c :: later) := by
  have digits : ∀ other ∈ [c], Char.isDigit other = true :=
    fun _ member => List.mem_singleton.mp member ▸ digit
  exact length_le_numberExtent digits (mem_fraction_iff.mpr (.inl rfl)) ⟨later, rfl⟩

/-- What is read of a number begins a number as well. -/
theorem BeginsNumber.take {first : Char} (begins : BeginsNumber first rest) :
    BeginsNumber first (rest.take (numberExtent rest)) := by
  refine begins.imp_right fun ⟨minus, c, isFirst, digit⟩ => ⟨minus, c, ?_, digit⟩
  obtain ⟨later, rfl⟩ := List.head?_eq_some_iff.mp isFirst
  rw [List.head?_take, if_neg (numberExtent_pos digit later).ne']
  rfl

/-- What is read of a number is a number. -/
theorem take_numberExtent_mem {first : Char} (begins : BeginsNumber first rest) :
    first :: rest.take (numberExtent rest) ∈ Pattern.number := by
  have stillBegins := begins.take
  obtain ⟨whole, places, digits, isFraction, split⟩ := exists_of_numberExtent rest
  rw [split] at stillBegins ⊢
  rcases stillBegins with digit | ⟨rfl, c, isFirst, digit⟩
  · exact mem_number_iff.mpr ⟨first :: whole,
      mem_run_iff.mpr ⟨List.cons_ne_nil _ _, List.forall_mem_cons.mpr ⟨digit, digits⟩⟩,
      places, isFraction, .inl rfl⟩
  · refine mem_number_iff.mpr ⟨whole, mem_run_iff.mpr ⟨?_, digits⟩, places, isFraction, .inr rfl⟩
    rintro rfl
    exact absurd (digit.symm.trans (fraction_stops isFraction c isFirst)) (by decide)

/-- A number is always read, and cut out of the text it is the same number. -/
theorem scanNumber_eq {first : Char} (begins : BeginsNumber first rest) :
    ∃ value, scanNumber first rest = (.token (.number value), numberExtent rest) ∧
      scanNumber first (rest.take (numberExtent rest)) =
        (.token (.number value), numberExtent rest) := by
  obtain ⟨value, read⟩ := exists_read_of_mem_number (take_numberExtent_mem begins)
  have isolated : numberExtent (rest.take (numberExtent rest)) = numberExtent rest := by
    obtain ⟨whole, places, digits, isFraction, split⟩ := exists_of_numberExtent rest
    have atLeast := length_le_numberExtent digits isFraction (List.prefix_refl (whole ++ places))
    have atMost := numberExtent_le (rest.take (numberExtent rest))
    have length := List.length_take_of_le (numberExtent_le rest)
    rw [← split] at atLeast
    omega
  refine ⟨value, ?_, ?_⟩
  · rw [scanNumber, read]
  · rw [scanNumber, isolated, List.take_take, Nat.min_self, read]

end Numbers

/-! ## Strings -/

section Strings

variable {body rest after : List Char} {count : Nat}

/-- A string ends at the first quote that does not follow a backslash, whatever comes then. -/
theorem stringExtent_of_body (isBody : body ∈ stringBody) (after : List Char) :
    stringExtent (body ++ '"' :: after) = (body.length + 1, true) := by
  induction isBody using stringBody_induction with
  | nil => simp [stringExtent]
  | plain c rest noQuote noEscape isRest ih =>
      rw [List.cons_append, stringExtent_cons noEscape noQuote, ih, List.length_cons]
  | escape c rest line isRest ih =>
      simp [stringExtent, line, ih]

/-- A string that is closed has a body before its closing quote. -/
theorem exists_body_of_stringExtent (closed : stringExtent rest = (count, true)) :
    ∃ body ∈ stringBody, ∃ after, rest = body ++ '"' :: after ∧ count = body.length + 1 := by
  fun_induction stringExtent rest generalizing count with
  | case1 | case2 | case3 => cases closed
  | case4 escaped later visible inner isClosed found ih =>
      obtain ⟨rfl, rfl⟩ := Prod.mk.inj closed
      obtain ⟨body, isBody, after, rfl, rfl⟩ := ih found
      exact ⟨'\\' :: escaped :: body, escape_mem_stringBody visible isBody, after, rfl, rfl⟩
  | case5 later =>
      obtain ⟨rfl, -⟩ := Prod.mk.inj closed
      exact ⟨[], nil_mem_stringBody, later, rfl, rfl⟩
  | case6 c later noEnd noEscape noQuote inner isClosed found ih =>
      obtain ⟨rfl, rfl⟩ := Prod.mk.inj closed
      obtain ⟨body, isBody, after, rfl, rfl⟩ := ih found
      have plain : c ≠ '\\' := by
        rintro rfl
        cases split : body ++ '"' :: after with
        | nil => simp at split
        | cons escaped more => exact noEscape escaped more rfl split
      exact ⟨c :: body, plain_mem_stringBody noQuote plain isBody, after, rfl, rfl⟩

/-- Between the quotes of a string only an unknown escape has no meaning. -/
theorem exists_unknown_of_unescape (isBody : body ∈ stringBody) (unknown : unescape body = none) :
    ∃ before ∈ stringBody, ∃ escaped after, escaped ∉ ['"', '\\', 'n', 't'] ∧
      body = before ++ '\\' :: escaped :: after := by
  induction isBody using stringBody_induction with
  | nil => cases unknown
  | plain c rest noQuote noEscape isRest ih =>
      have later : unescape rest = none := by
        rw [unescape] at unknown
        · simpa using unknown
        · intro escape; exact absurd escape noEscape
        · intro _ _ escape; exact absurd escape noEscape
      obtain ⟨before, isBefore, escaped, after, known, rfl⟩ := ih later
      exact ⟨c :: before, plain_mem_stringBody noQuote noEscape isBefore, escaped, after, known,
        rfl⟩
  | escape c rest line isRest ih =>
      cases meaning : escapeMeaning c with
      | none =>
          refine ⟨[], nil_mem_stringBody, c, rest, ?_, rfl⟩
          intro known
          simp only [List.mem_cons, List.not_mem_nil, or_false] at known
          rcases known with rfl | rfl | rfl | rfl <;> cases meaning
      | some value =>
          have later : unescape rest = none := by simpa [unescape, meaning] using unknown
          obtain ⟨before, isBefore, escaped, after, known, rfl⟩ := ih later
          exact ⟨'\\' :: c :: before, escape_mem_stringBody line isBefore, escaped, after, known,
            rfl⟩

/-- What is read of a closed string does not depend on the text after it. -/
theorem scanString_of_body (isBody : body ∈ stringBody) (after : List Char) :
    scanString (body ++ '"' :: after) =
      ((match unescape body with
        | some value => .token (.string (String.ofList value))
        | none => .stray), body.length + 1) := by
  have taken : (body ++ '"' :: after).take (body.length + 1 - 1) = body := by simp
  simp only [scanString, stringExtent_of_body isBody, taken, if_true]
  cases unescape body <;> rfl

end Strings

/-! ## Moments -/

section Moments

variable {inner rest : List Char}

/-- A moment ends at the first colon in its line, whatever comes then. -/
theorem scanMoment_of_inner (isInner : inner ∈ run isMomentPart) (after : List Char) :
    scanMoment (inner ++ ':' :: after) =
      (if Text.trim inner = [] then .stray
        else .token (.moment (String.ofList (Text.trim inner))), inner.length + 1) := by
  obtain ⟨nonempty, every⟩ := mem_run_iff.mp isInner
  have taken : (inner ++ ':' :: after).takeWhile (fun c => c != ':' && c != '\n') = inner :=
    takeWhile_append_stop every fun c first => Option.some.inj first ▸ by decide
  simp only [scanMoment, taken, List.drop_left, List.head?_cons, ne_eq, nonempty, not_false_eq_true,
    true_and, if_true]
  split_ifs <;> rfl

/-- A moment that is read has its closing colon in the text. -/
theorem exists_inner_of_scanMoment {value : Token} (read : (scanMoment rest).1 = .token value) :
    ∃ inner ∈ run isMomentPart, ∃ after, rest = inner ++ ':' :: after := by
  simp only [scanMoment] at read
  split_ifs at read with closed
  obtain ⟨after, split⟩ := List.head?_eq_some_iff.mp closed.2
  refine ⟨_, mem_run_iff.mpr ⟨closed.1, fun _ member => List.mem_takeWhile_imp member⟩, after, ?_⟩
  rw [← split, drop_takeWhile]
  exact List.takeWhile_append_dropWhile.symm

end Moments

/-! ## What the first character decides -/

section Scan

variable {first : Char} {rest matched : List Char}

/-- A character that is not blank is not layout. -/
theorem not_isLayout_of_visible (visible : Text.isBlank first = false) :
    isLayout first = false := by
  by_contra layout
  rw [isBlank_of_isLayout (by simpa using layout)] at visible
  cases visible

/-- A name is read as far as its characters go. -/
theorem scan_of_isNameStart (starts : isNameStart first = true) (rest : List Char) :
    scan first rest =
      (.token (.identifier (String.ofList (first :: rest.takeWhile isNamePart))),
        (rest.takeWhile isNamePart).length) := by
  simp only [scan, not_isLayout_of_visible (isBlank_of_isNameStart starts), starts, if_true,
    Bool.false_eq_true, if_false]

/-- A number is read where one begins. -/
theorem scan_of_beginsNumber (begins : BeginsNumber first rest) :
    scan first rest = scanNumber first rest := by
  have noName : ∀ c : Char, c.isDigit = true → isNameStart c = false := by
    intro c digit
    by_contra name
    simp only [isNameStart, Bool.not_eq_false, Bool.or_eq_true, beq_iff_eq] at name
    rcases name with letter | rfl
    · rw [Text.isAlpha_eq_false_of_isDigit digit] at letter
      cases letter
    · exact absurd digit (by decide)
  rcases begins with digit | ⟨rfl, c, isFirst, digit⟩
  · simp only [scan, not_isLayout_of_visible (isBlank_of_isDigit digit), noName first digit, digit,
      Bool.false_eq_true, if_true, if_false]
  · obtain ⟨later, rfl⟩ := List.head?_eq_some_iff.mp isFirst
    have minus : scan '-' (c :: later) =
        if isNameStart c then
          (.token (.optionName (String.ofList ((c :: later).takeWhile isNamePart))),
            ((c :: later).takeWhile isNamePart).length)
        else if c.isDigit then scanNumber '-' (c :: later) else (.stray, 0) := rfl
    rw [minus, noName c digit, digit]
    rfl

/-- The name of an option is read as far as its characters go. -/
theorem scan_of_option {c : Char} (starts : isNameStart c = true) (later : List Char) :
    scan '-' (c :: later) =
      (.token (.optionName (String.ofList ((c :: later).takeWhile isNamePart))),
        ((c :: later).takeWhile isNamePart).length) := by
  have minus : scan '-' (c :: later) =
      if isNameStart c then
        (.token (.optionName (String.ofList ((c :: later).takeWhile isNamePart))),
          ((c :: later).takeWhile isNamePart).length)
      else if c.isDigit then scanNumber '-' (c :: later) else (.stray, 0) := rfl
  rw [minus, if_pos starts]

/-! ## No longer match -/

/--
The piece that is cut off is at least as long as a text, and if it is stray it is a literal
without a meaning.
-/
structure Covers (first : Char) (rest matched : List Char) : Prop where
  length : matched.length ≤ (scan first rest).2 + 1
  meaningless : (scan first rest).1 = .stray →
    Meaningless (first :: rest.take (scan first rest).2)

/-- No layout is longer than what is read. -/
theorem covers_of_mem_run (layout : matched ∈ blanks) (begins : matched <+: first :: rest) :
    Covers first rest matched := by
  obtain ⟨c, more, isFirst, isMore, rfl⟩ := mem_one_mul.mp layout
  obtain ⟨rfl, beginsRest⟩ := List.cons_prefix_cons.mp begins
  have scanned := scan_of_isLayout isFirst rest
  constructor
  · rw [scanned]
    exact Nat.succ_le_succ (length_le_takeWhile (mem_many_iff.mp isMore) beginsRest)
  · simp [scanned]

/-- No comment is longer than what is read. -/
theorem covers_of_mem_comment (isComment : matched ∈ comment) (begins : matched <+: first :: rest) :
    Covers first rest matched := by
  obtain ⟨line, isLine, rfl⟩ := mem_comment_iff.mp isComment
  obtain ⟨rfl, later, rfl⟩ := List.cons_prefix_cons.mp begins
  have atLeast := length_le_takeWhile (mem_many_iff.mp isLine) (List.prefix_append line later)
  constructor
  · simp only [List.cons_append, scan_comment, List.length_cons]
    omega
  · simp [scan_comment]

/-- No name is longer than what is read. -/
theorem covers_of_mem_name (isName : matched ∈ Pattern.name) (begins : matched <+: first :: rest) :
    Covers first rest matched := by
  obtain ⟨c, more, isFirst, isMore, rfl⟩ := mem_one_mul.mp isName
  obtain ⟨rfl, beginsRest⟩ := List.cons_prefix_cons.mp begins
  have scanned := scan_of_isNameStart isFirst rest
  constructor
  · rw [scanned]
    exact Nat.succ_le_succ (length_le_takeWhile (mem_many_iff.mp isMore) beginsRest)
  · simp [scanned]

theorem isNamePart_of_isNameStart {c : Char} (starts : isNameStart c = true) :
    isNamePart c = true := by
  simp only [isNameStart, isNamePart, Char.isAlphanum, Bool.or_eq_true] at starts ⊢
  tauto

theorem isNamePart_of_mem_name {name : List Char} (isName : name ∈ Pattern.name) :
    ∀ c ∈ name, isNamePart c = true := by
  obtain ⟨first, more, starts, parts, rfl⟩ := mem_one_mul.mp isName
  exact List.forall_mem_cons.mpr ⟨isNamePart_of_isNameStart starts, mem_many_iff.mp parts⟩

/-- No name of an option is longer than what is read. -/
theorem covers_of_mem_option (isOption : matched ∈ Pattern.option)
    (begins : matched <+: first :: rest) : Covers first rest matched := by
  obtain ⟨c, more, isFirst, isMore, rfl⟩ := mem_option_iff.mp isOption
  obtain ⟨rfl, beginsRest⟩ := List.cons_prefix_cons.mp begins
  have parts : ∀ part ∈ c :: more, isNamePart part = true :=
    List.forall_mem_cons.mpr ⟨isNamePart_of_isNameStart isFirst, mem_many_iff.mp isMore⟩
  have atLeast := length_le_takeWhile parts beginsRest
  obtain ⟨later, rfl⟩ := beginsRest
  have scanned := scan_of_option isFirst (more ++ later)
  constructor
  · rw [List.cons_append, scanned]
    exact Nat.succ_le_succ atLeast
  · simp [scanned]

/-- A text that begins with a number begins as one. -/
theorem beginsNumber_of_mem_number (isNumber : matched ∈ Pattern.number)
    (begins : matched <+: first :: rest) : BeginsNumber first rest := by
  obtain ⟨whole, digits, places, -, split⟩ := mem_number_iff.mp isNumber
  obtain ⟨nonempty, every⟩ := mem_run_iff.mp digits
  obtain ⟨c, more, rfl⟩ := List.exists_cons_of_ne_nil nonempty
  have digit : c.isDigit = true := every c (List.mem_cons_self ..)
  rcases split with rfl | rfl
  · obtain ⟨rfl, -⟩ := List.cons_prefix_cons.mp begins
    exact .inl digit
  · obtain ⟨rfl, later, rfl⟩ := List.cons_prefix_cons.mp begins
    exact .inr ⟨rfl, c, rfl, digit⟩

/-- No number is longer than what is read. -/
theorem covers_of_mem_number (isNumber : matched ∈ Pattern.number)
    (begins : matched <+: first :: rest) : Covers first rest matched := by
  have beginsNumber := beginsNumber_of_mem_number isNumber begins
  obtain ⟨whole, digits, places, isFraction, split⟩ := mem_number_iff.mp isNumber
  obtain ⟨nonempty, every⟩ := mem_run_iff.mp digits
  obtain ⟨value, scanned, -⟩ := scanNumber_eq beginsNumber
  have atLeast : matched.length ≤ numberExtent rest + 1 := by
    rcases split with rfl | rfl
    · obtain ⟨c, more, rfl⟩ := List.exists_cons_of_ne_nil nonempty
      exact Nat.succ_le_succ (length_le_numberExtent (List.forall_mem_cons.mp every).2 isFraction
        (List.cons_prefix_cons.mp begins).2)
    · exact Nat.succ_le_succ
        (length_le_numberExtent every isFraction (List.cons_prefix_cons.mp begins).2)
  rw [← scan_of_beginsNumber beginsNumber] at scanned
  exact ⟨by rw [scanned]; exact atLeast, by simp [scanned]⟩

theorem take_literal (inner : List Char) (closing : Char) (later : List Char) :
    (inner ++ [closing] ++ later).take (inner.length + 1) = inner ++ [closing] :=
  List.take_left' List.length_append

/-- No string is longer than what is read. -/
theorem covers_of_mem_string (isString : matched ∈ Pattern.string)
    (begins : matched <+: first :: rest) : Covers first rest matched := by
  obtain ⟨body, isBody, rfl⟩ := mem_string_iff.mp isString
  obtain ⟨rfl, later, rfl⟩ := List.cons_prefix_cons.mp begins
  have scanned : scan '"' (body ++ ['"'] ++ later) = scanString (body ++ '"' :: later) := by
    rw [List.append_assoc]
    rfl
  rw [scanString_of_body isBody] at scanned
  constructor
  · rw [scanned]
    simp
  · rw [scanned, take_literal]
    intro stray
    cases meaning : unescape body with
    | some value => simp [meaning] at stray
    | none =>
        obtain ⟨before, isBefore, escaped, after, known, rfl⟩ :=
          exists_unknown_of_unescape isBody meaning
        exact .inl ⟨before, isBefore, escaped, after, known, by simp, isString⟩

/-- No moment is longer than what is read. -/
theorem covers_of_mem_moment (isMoment : matched ∈ Pattern.moment)
    (begins : matched <+: first :: rest) : Covers first rest matched := by
  obtain ⟨inner, isInner, rfl⟩ := mem_moment_iff.mp isMoment
  obtain ⟨rfl, later, rfl⟩ := List.cons_prefix_cons.mp begins
  have scanned : scan ':' (inner ++ [':'] ++ later) = scanMoment (inner ++ ':' :: later) := by
    rw [List.append_assoc]
    rfl
  rw [scanMoment_of_inner isInner] at scanned
  constructor
  · rw [scanned]
    simp
  · rw [scanned, take_literal]
    intro stray
    by_cases blank : Text.trim inner = []
    · exact .inr ⟨inner, (Text.trim_eq_nil_iff inner).mp blank, rfl, isMoment⟩
    · simp [blank] at stray

/-- The signs of comparisons; an equals sign that follows one belongs to it. -/
theorem covers_of_comparison (operator : Comparison)
    (begins : operator.text.toList <+: first :: rest) :
    Covers first rest operator.text.toList := by
  have alone : ∀ sign : Char, [sign] <+: first :: rest → first = sign := by
    intro sign isFirst
    exact (List.cons_prefix_cons.mp isFirst).1.symm
  have withEquals : ∀ sign : Char, [sign, '='] <+: first :: rest →
      first = sign ∧ ∃ later, rest = '=' :: later := by
    intro sign isFirst
    obtain ⟨same, later, more⟩ := List.cons_prefix_cons.mp isFirst
    exact ⟨same.symm, later, more.symm⟩
  cases operator with
  | assign | less | greater =>
      obtain rfl := alone _ begins
      constructor
      · exact Nat.succ_le_succ (Nat.zero_le _)
      · intro stray
        change (scanSign rest _ _).1 = .stray at stray
        rw [scanSign] at stray
        split_ifs at stray
  | _ =>
      obtain ⟨rfl, later, rfl⟩ := withEquals _ begins
      exact ⟨Nat.le_refl _, fun stray => by cases stray⟩

/-- Nothing that matches at all is longer than what is read. -/
theorem covers_of_isLexeme (isLexeme : IsLexeme matched) (begins : matched <+: first :: rest) :
    Covers first rest matched := by
  rcases isLexeme with layout | isComment | ⟨token, isToken⟩
  · exact covers_of_mem_run layout begins
  · exact covers_of_mem_comment isComment begins
  cases token with
  | comparison operator =>
      obtain rfl := mem_word.mp isToken
      exact covers_of_comparison operator begins
  | optionName name => exact covers_of_mem_option isToken begins
  | number value => exact covers_of_mem_number isToken begins
  | string value => exact covers_of_mem_string isToken begins
  | moment text => exact covers_of_mem_moment isToken begins
  | identifier name => exact covers_of_mem_name isToken begins
  | _ =>
      obtain rfl := mem_word.mp isToken
      obtain ⟨rfl, -⟩ := List.cons_prefix_cons.mp begins
      exact ⟨Nat.le_refl _, fun stray => by cases stray⟩

end Scan

/-! ## Tokens by themselves -/

/--
A token that a scanner reads after a character matches its pattern together with it, and
it is read again where the text ends after it.
-/
def Isolated (scanner : List Char → Lexeme × Nat) (first : Char) (rest : List Char) : Prop :=
  ∀ value, (scanner rest).1 = .token value →
    first :: rest.take (scanner rest).2 ∈ value.pattern ∧
      scanner (rest.take (scanner rest).2) = scanner rest

section Isolated

variable {first : Char} {rest : List Char}

/-- A name matches its pattern and is read again by itself. -/
theorem isolated_name (lexeme : List Char → Lexeme)
    (matched : ∀ value, lexeme (rest.takeWhile isNamePart) = .token value →
      first :: rest.takeWhile isNamePart ∈ value.pattern) :
    Isolated
      (fun rest => (lexeme (rest.takeWhile isNamePart), (rest.takeWhile isNamePart).length))
      first rest := by
  intro value read
  simp only [take_takeWhile, List.takeWhile_idem]
  exact ⟨matched value read, trivial⟩

/-- A number matches its pattern and is read again by itself. -/
theorem isolated_number (begins : BeginsNumber first rest) : Isolated (scan first) first rest := by
  obtain ⟨number, scanned, again⟩ := scanNumber_eq begins
  intro value read
  rw [scan_of_beginsNumber begins, scanned] at read ⊢
  rw [scan_of_beginsNumber begins.take, again]
  obtain rfl := Lexeme.token.inj read
  exact ⟨take_numberExtent_mem begins, rfl⟩

/-- A sign matches its pattern, with an equals sign or alone, and is read again by itself. -/
theorem isolated_sign {alone withEquals : Lexeme}
    (matchedAlone : ∀ value, alone = .token value → [first] ∈ value.pattern)
    (matchedBoth : ∀ value, withEquals = .token value → [first, '='] ∈ value.pattern) :
    Isolated (fun rest => scanSign rest alone withEquals) first rest := by
  intro value read
  by_cases equals : rest.head? = some '='
  · obtain ⟨later, rfl⟩ := List.head?_eq_some_iff.mp equals
    exact ⟨matchedBoth value read, rfl⟩
  · simp only [scanSign, if_neg equals] at read ⊢
    exact ⟨matchedAlone value read, rfl⟩

/-- A string matches its pattern and is read again by itself. -/
theorem isolated_string : Isolated scanString '"' rest := by
  intro value read
  obtain ⟨count, closed, extent⟩ : ∃ count closed, stringExtent rest = (count, closed) :=
    ⟨_, _, rfl⟩
  cases closed with
  | false => simp [scanString, extent] at read
  | true =>
      obtain ⟨body, isBody, after, rfl, -⟩ := exists_body_of_stringExtent extent
      have taken := take_literal body '"' after
      rw [List.append_assoc, List.singleton_append] at taken
      rw [scanString_of_body isBody] at read ⊢
      rw [taken, scanString_of_body isBody]
      cases meaning : unescape body with
      | none => simp [meaning] at read
      | some text =>
          simp only [meaning, Lexeme.token.injEq] at read
          exact ⟨read ▸ mem_string_iff.mpr ⟨body, isBody, rfl⟩, rfl⟩

/-- A moment matches its pattern and is read again by itself. -/
theorem isolated_moment : Isolated scanMoment ':' rest := by
  intro value read
  obtain ⟨inner, isInner, after, rfl⟩ := exists_inner_of_scanMoment read
  have taken := take_literal inner ':' after
  rw [List.append_assoc, List.singleton_append] at taken
  rw [scanMoment_of_inner isInner] at read ⊢
  rw [taken, scanMoment_of_inner isInner]
  refine ⟨?_, rfl⟩
  split_ifs at read
  obtain rfl := Lexeme.token.inj read
  exact mem_moment_iff.mpr ⟨inner, isInner, rfl⟩

/-- What a minus sign begins, if no number, matches its pattern and is read again by itself. -/
theorem isolated_minus (noNumber : ¬ BeginsNumber '-' rest) : Isolated (scan '-') '-' rest := by
  cases rest with
  | nil =>
      intro value read
      cases read
  | cons next later =>
      by_cases name : isNameStart next = true
      · have parts : (next :: later).takeWhile isNamePart =
            next :: later.takeWhile isNamePart := by
          rw [List.takeWhile_cons, if_pos (isNamePart_of_isNameStart name)]
        intro value read
        rw [scan_of_option name] at read ⊢
        obtain rfl := Lexeme.token.inj read
        rw [take_takeWhile]
        constructor
        · exact mem_option_iff.mpr
            ⟨next, later.takeWhile isNamePart, name, takeWhile_mem_many _ _, by rw [parts]⟩
        · rw [parts, scan_of_option name, ← parts, List.takeWhile_idem]
      · have digit : ¬ next.isDigit = true := fun digit => noNumber (.inr ⟨rfl, next, rfl, digit⟩)
        have stray : scan '-' (next :: later) = (.stray, 0) := by
          have classes : isLayout '-' = false ∧ isNameStart '-' = false ∧
              Char.isDigit '-' = false := by decide
          simp [scan, name, digit, classes]
        intro value read
        rw [stray] at read
        cases read

/-- A token matches its pattern, and it is read again where the text ends after it. -/
theorem scan_isolated (first : Char) (rest : List Char) : Isolated (scan first) first rest := by
  by_cases begins : BeginsNumber first rest
  · exact isolated_number begins
  by_cases minus : first = '-'
  · subst minus
    exact isolated_minus begins
  change Isolated (fun rest => scan first rest) first rest
  simp only [scan]
  split_ifs with layout name digit
  · intro value read
    cases read
  · refine isolated_name (fun more => .token (.identifier (String.ofList (first :: more)))) ?_
    rintro _ ⟨⟩
    exact mem_one_mul.mpr ⟨first, _, name, takeWhile_mem_many _ _, rfl⟩
  · exact absurd (.inl digit) begins
  · split
    -- The signs of comparisons, then the literals in quotes and in colons.
    case h_7 => exact isolated_sign (by rintro _ ⟨⟩) (by rintro _ ⟨⟩; rfl)
    case h_6 | h_8 | h_9 => exact isolated_sign (by rintro _ ⟨⟩; rfl) (by rintro _ ⟨⟩; rfl)
    case h_10 => exact isolated_string
    case h_11 => exact isolated_moment
    -- A slash begins no token, and a dash is treated above.
    case h_12 =>
      intro value read
      dsimp only at read
      split at read <;> cases read
    case h_13 => exact absurd rfl minus
    case h_14 => rintro value ⟨⟩
    all_goals
      intro value read
      obtain rfl := Lexeme.token.inj read
      exact ⟨mem_word.mpr rfl, rfl⟩

end Isolated

end Flowgraph
