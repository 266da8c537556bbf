import Flowgraph.Proofs.Number.Digits
import Flowgraph.Proofs.Number.Rounding
import Flowgraph.Proofs.Time.Text
import Flowgraph.Proofs.Token.LongestMatch

/-!
# Durations and moments that read back

What was read from some text is read again from the text in which it is shown, whatever
alternatives are tried first (`Duration.read?_text`, `Moment.read?_shown`).

For a duration this depends on the unit: the number of milliseconds is a multiple of it, so
that the count has no more significant bits than the number of milliseconds.  The longest
duration, at which the cast to a word stops, is shown in milliseconds.
-/

namespace Flowgraph

open Number Text

/-! ## Trimming -/

namespace Text

theorem trimStart_of_head {text : List Char} (visible : ∀ c ∈ text.head?, isBlank c = false) :
    trimStart text = text := by
  cases text with
  | nil => rfl
  | cons c rest => rw [trimStart, List.dropWhile_cons, if_neg (by simp [visible c rfl])]

/-- Blanks behind a text that neither begins nor ends with one are trimmed, and nothing else. -/
theorem trim_append_blanks {text blanks : List Char} (nonempty : text ≠ [])
    (first : ∀ c ∈ text.head?, isBlank c = false) (last : ∀ c ∈ text.getLast?, isBlank c = false)
    (blank : ∀ c ∈ blanks, isBlank c = true) : trim (text ++ blanks) = text := by
  have begins : trimStart (text ++ blanks) = text ++ blanks := by
    refine trimStart_of_head fun c isFirst => first c ?_
    rwa [List.head?_append_of_ne_nil _ nonempty] at isFirst
  have ends : trimStart text.reverse = text.reverse :=
    trimStart_of_head fun c isLast => last c (by rwa [List.head?_reverse] at isLast)
  rw [trim, begins, trimEnd, List.reverse_append,
    List.dropWhile_append_of_pos fun c member => blank c (List.mem_reverse.mp member)]
  rw [trimStart] at ends
  rw [ends, List.reverse_reverse]

theorem trim_eq_self {text : List Char} (first : ∀ c ∈ text.head?, isBlank c = false)
    (last : ∀ c ∈ text.getLast?, isBlank c = false) : trim text = text := by
  rcases eq_or_ne text [] with rfl | nonempty
  · rfl
  · have kept : trim (text ++ []) = text := trim_append_blanks nonempty first last (by simp)
    rwa [List.append_nil] at kept

theorem trim_of_forall {text : List Char} (visible : ∀ c ∈ text, isBlank c = false) :
    trim text = text :=
  trim_eq_self (fun c first => visible c (List.mem_of_mem_head? first))
    (fun c last => visible c (List.mem_of_mem_getLast? last))

theorem isBlank_of_isAlphanum {c : Char} (isAlphanum : c.isAlphanum = true) :
    isBlank c = false := by
  rw [Char.isAlphanum, Bool.or_eq_true] at isAlphanum
  rcases isAlphanum with isLetter | isDigit
  · exact isBlank_of_isNameStart (by rw [isNameStart, isLetter, Bool.true_or])
  · exact isBlank_of_isDigit isDigit

theorem not_isAlpha_of_isBlank {c : Char} (blank : isBlank c = true) : c.isAlpha = false := by
  by_contra isLetter
  have visible : isBlank c = false := isBlank_of_isNameStart (by
    rw [isNameStart, Bool.eq_true_of_not_eq_false isLetter, Bool.true_or])
  rw [blank] at visible
  cases visible

/-- A text without a separator is a single part. -/
theorem splitAtEach_of_not_mem {separator : Char} {text : List Char} (absent : separator ∉ text) :
    splitAtEach separator text = [text] := by
  induction text with
  | nil => rfl
  | cons c rest ih =>
      rw [List.mem_cons, not_or] at absent
      rw [splitAtEach, if_neg (Ne.symm absent.1), ih absent.2]

/-- A text has no ending with a character that it does not contain. -/
theorem beforeEnding?_of_not_mem {ending text : List Char} {c : Char} (member : c ∈ ending)
    (absent : c ∉ text) : beforeEnding? ending text = none := by
  rw [beforeEnding?, if_neg]
  intro ends
  exact absent ((List.isSuffixOf_iff_suffix.mp ends).subset member)

theorem beforeEnding?_append (text ending : List Char) :
    beforeEnding? ending (text ++ ending) = some text := by
  rw [beforeEnding?, if_pos (List.isSuffixOf_iff_suffix.mpr (List.suffix_append ..)),
    List.length_append, Nat.add_sub_cancel, List.take_left]

end Text

/-! ## Durations -/

namespace Duration

/-- A duration that was read is a number of milliseconds to which numbers are cast. -/
theorem exists_isCast_of_read? {text : List Char} {duration : Duration}
    (found : read? text = some duration) :
    ∃ milliseconds, duration = ofMilliseconds milliseconds ∧ IsCast milliseconds := by
  obtain ⟨count, counted, inUnits⟩ := Option.bind_eq_some_iff.mp found
  rw [ofUnits?] at inUnits
  split_ifs at inUnits
  obtain ⟨factor, -, rfl⟩ := Option.map_eq_some_iff.mp inUnits
  exact ⟨_, rfl, isCast_toWord ((Binary64.representable_of_read counted).scale factor)⟩

/-- Blanks around a duration do not count. -/
theorem read?_of_trim_eq {text other : List Char} (same : trim text = trim other) :
    read? text = read? other := by
  simp only [read?, same]

/-- A number and the unit behind it are told apart by the first letter, and blanks between fall. -/
theorem read?_append {number blanks unit : List Char} {count : Binary64} {letter : Char}
    (isNumber : ∀ c ∈ number, c.isAlpha = false) (blank : ∀ c ∈ blanks, isBlank c = true)
    (isUnit : unit.head? = some letter ∧ letter.isAlpha = true)
    (visible : ∀ c ∈ number ++ unit, isBlank c = false)
    (value : Binary64.read number = some count) :
    read? (number ++ blanks ++ unit) = ofUnits? count unit := by
  obtain ⟨visibleNumber, visibleUnit⟩ := List.forall_mem_append.mp visible
  have nonempty : number ≠ [] := by
    rintro rfl
    cases value
  have unitNonempty : unit ≠ [] := by
    rintro rfl
    cases isUnit.1
  have noLetter : ∀ c ∈ number ++ blanks, c.isAlpha = false :=
    List.forall_mem_append.mpr ⟨isNumber, fun c member => not_isAlpha_of_isBlank (blank c member)⟩
  have trimmed : trim (number ++ blanks ++ unit) = number ++ blanks ++ unit := by
    refine trim_eq_self (fun c first => ?_) fun c last => ?_
    · rw [List.append_assoc, List.head?_append_of_ne_nil _ nonempty] at first
      exact visibleNumber c (List.mem_of_mem_head? first)
    · rw [List.getLast?_append_of_ne_nil _ unitNonempty] at last
      exact visibleUnit c (List.mem_of_mem_getLast? last)
  have trimmedNumber : trim (number ++ blanks) = number :=
    trim_append_blanks nonempty
      (fun c first => visibleNumber c (List.mem_of_mem_head? first))
      (fun c last => visibleNumber c (List.mem_of_mem_getLast? last)) blank
  have taken : (number ++ blanks ++ unit).takeWhile (fun c => !c.isAlpha) = number ++ blanks :=
    takeWhile_append_stop (fun c member => by rw [noLetter c member, Bool.not_false])
      (fun c first => by
        obtain rfl := Option.some.inj (isUnit.1.symm.trans first)
        rw [isUnit.2, Bool.not_true])
  simp only [read?, trimmed, taken, List.drop_left, trimmedNumber, trim_of_forall visibleUnit,
    value, Option.bind_some]

theorem read?_count {unit : String × Nat} (isUnit : unit ∈ shownUnits) (count : Nat) :
    read? (toString count ++ unit.1).toList =
      ofUnits? (Binary64.ofDecimal false count 0) unit.1.toList := by
  obtain ⟨letter, head, isLetter, -⟩ := head?_shownUnits isUnit
  have digits : ∀ c ∈ (toString count).toList, c.isDigit = true :=
    fun c member => isDigit_of_mem_toString member
  have visible : ∀ c ∈ (toString count).toList ++ unit.1.toList, isBlank c = false :=
    List.forall_mem_append.mpr ⟨fun c member => isBlank_of_isDigit (digits c member),
      fun c member =>
        isBlank_of_isAlphanum (List.all_eq_true.mp (isAlphanum_shownUnits unit isUnit) c member)⟩
  have noBlanks : (toString count ++ unit.1).toList =
      (toString count).toList ++ [] ++ unit.1.toList := by
    rw [String.toList_append, List.append_nil]
  rw [noBlanks]
  exact read?_append (fun c member => isAlpha_eq_false_of_isDigit (digits c member)) (by simp)
    ⟨head, isLetter⟩ visible (Binary64.read_toString count)

/-- Numbers of milliseconds to which numbers are cast are read again. -/
theorem read?_text_of_isCast {milliseconds : UInt64} (isCast : IsCast milliseconds) :
    read? (ofMilliseconds milliseconds).text.toList = some (ofMilliseconds milliseconds) := by
  obtain ⟨count, unit, isUnit, shown, value⟩ := (ofMilliseconds milliseconds).exists_text
  rw [milliseconds_ofMilliseconds] at value
  have positive : ∀ unit ∈ shownUnits, 0 < unit.2 := by decide
  have alone : milliseconds.toNat = UInt64.size - 1 → unit.2 = 1 := by
    intro largest
    have dividing : ∀ unit ∈ shownUnits, (UInt64.size - 1) % unit.2 = 0 → unit.2 = 1 := by decide
    refine dividing unit isUnit ?_
    rw [← largest, value, Nat.mul_mod_left]
  obtain ⟨whole, decimal, significant, atMost, word⟩ :=
    exists_ofDecimal isCast value (positive unit isUnit) alone
  rw [shown, read?_count isUnit, decimal, ofUnits?]
  simp only [Binary64.isFinite, Binary64.isBelowZero, Bool.false_and, Bool.not_false,
    Bool.and_self, if_true, String.ofList_toList, unitMilliseconds?_of_mem_shownUnits unit isUnit,
    Option.map_some, toWord_scale_whole significant atMost, word]

/-- A duration that was read is read again from its text. -/
theorem read?_text {text : List Char} {duration : Duration}
    (found : read? text = some duration) : read? duration.text.toList = some duration := by
  obtain ⟨milliseconds, rfl, isCast⟩ := exists_isCast_of_read? found
  exact read?_text_of_isCast isCast

/-- The text of a duration consists of digits and the letters of units. -/
theorem not_mem_text {c : Char} (noDigit : c.isDigit = false) (noUnit : c ∉ ['m', 's', 'h', 'd'])
    (duration : Duration) : c ∉ duration.text.toList := by
  have letters : ∀ unit ∈ shownUnits,
      (unit.1.toList.all fun c => ['m', 's', 'h', 'd'].contains c) = true := by
    decide
  obtain ⟨count, unit, isUnit, shown, -⟩ := duration.exists_text
  rw [shown, String.toList_append, List.mem_append]
  rintro (inCount | inUnit)
  · rw [isDigit_of_mem_toString inCount] at noDigit
    cases noDigit
  · exact noUnit (List.contains_iff_mem.mp (List.all_eq_true.mp (letters unit isUnit) c inUnit))

theorem not_isBlank_of_mem_text {duration : Duration} {c : Char}
    (member : c ∈ duration.text.toList) : isBlank c = false :=
  isBlank_of_isAlphanum (isAlphanum_of_mem_text member)

end Duration

/-! ## Moments -/

namespace Moment

/-- What does not begin with a letter is no name of a moment. -/
theorem read?_of_unnamed {text : List Char} (trimmed : trim text = text)
    (unnamed : ∀ c ∈ text.head?, c.isAlpha = false) :
    read? text =
      match beforeEnding? "ago".toList text with
      | some distance => (Duration.read? distance).map ago
      | none =>
          ((readSigned 64 text).map fun seconds => absolute (Int64.ofInt seconds)).or
            (((Calendar.readSeconds? text).map absolute).or
              ((Duration.read? text).map offset)) := by
  have other : ∀ name ∈ ["end", "now", "beginning"], text ≠ name.toList := by
    rintro name member rfl
    have letters : ∀ name ∈ ["end", "now", "beginning"],
        (name.toList.head?.map Char.isAlpha) = some true := by
      decide
    obtain ⟨c, first, isLetter⟩ := Option.map_eq_some_iff.mp (letters name member)
    rw [unnamed c first] at isLetter
    cases isLetter
  rw [read?, trimmed]
  exact (if_neg (other _ (by simp))).trans
    ((if_neg (other _ (by simp))).trans (if_neg (other _ (by simp))))

/-- What is shown of a moment neither begins nor ends with a blank. -/
theorem trim_shown (moment : Moment) : trim moment.shown.toList = moment.shown.toList := by
  cases moment with
  | endOfTime | now | beginning => decide
  | absolute seconds =>
      refine trim_of_forall fun c member => ?_
      rcases mem_toString_int member with isDigit | rfl
      · exact isBlank_of_isDigit isDigit
      · decide
  | ago distance =>
      obtain ⟨first, rest, digits, isDigit⟩ := distance.isDigit_head_text
      rw [shown, String.toList_append]
      refine trim_eq_self (fun c isFirst => ?_) (fun c isLast => ?_)
      · rw [digits, List.cons_append, List.head?_cons, Option.mem_some_iff] at isFirst
        exact isBlank_of_isDigit (isFirst ▸ isDigit)
      · have last : (distance.text.toList ++ " ago".toList).getLast? = some 'o' := by
          rw [List.getLast?_append]
          rfl
        rw [last, Option.mem_some_iff] at isLast
        exact isLast ▸ by decide
  | offset distance => exact trim_of_forall fun c => Duration.not_isBlank_of_mem_text

/-- A number of seconds is read as such, before a date or a duration is tried. -/
theorem read?_shown_absolute (seconds : Int64) :
    read? (absolute seconds).shown.toList = some (absolute seconds) := by
  have noLetter : ∀ c ∈ (absolute seconds).shown.toList, c.isAlpha = false := by
    intro c member
    rcases mem_toString_int member with isDigit | rfl
    · exact isAlpha_eq_false_of_isDigit isDigit
    · decide
  have noAgo : 'a' ∉ (absolute seconds).shown.toList := by
    intro member
    cases noLetter 'a' member
  have read : readSigned 64 (absolute seconds).shown.toList = some seconds.toInt :=
    readSigned_toString 64 ⟨seconds.le_toInt, seconds.toInt_lt⟩
  rw [read?_of_unnamed (trim_shown _) fun c first => noLetter c (List.mem_of_mem_head? first),
    beforeEnding?_of_not_mem (by decide) noAgo, read]
  simp

section Distance

variable {distance : Duration}

theorem isAlpha_head_text : ∀ c ∈ distance.text.toList.head?, c.isAlpha = false := by
  intro c isFirst
  obtain ⟨first, rest, digits, isDigit⟩ := distance.isDigit_head_text
  rw [digits, List.head?_cons, Option.mem_some_iff] at isFirst
  exact isAlpha_eq_false_of_isDigit (isFirst ▸ isDigit)

/-- A duration is no number, since its unit is made of letters. -/
theorem readSigned_text : readSigned 64 distance.text.toList = none := by
  obtain ⟨first, rest, digits, isDigit⟩ := distance.isDigit_head_text
  obtain ⟨noPlus, noMinus⟩ := not_sign_of_isDigit isDigit
  obtain ⟨c, member, isLetter⟩ := distance.exists_isAlpha_mem_text
  have noNumber : readNatural (first :: rest) = none := by
    rw [← digits, readNatural, if_neg]
    rintro ⟨-, all⟩
    rw [isAlpha_eq_false_of_isDigit (List.all_eq_true.mp all c member)] at isLetter
    cases isLetter
  rw [digits]
  simp [readSigned, noPlus, noMinus, noNumber]

/-- A duration is no date, since it has no dashes. -/
theorem readSeconds?_text : Calendar.readSeconds? distance.text.toList = none := by
  have noZone : 'Z' ∉ distance.text.toList := Duration.not_mem_text (by decide) (by decide) _
  have noTime : 'T' ∉ distance.text.toList := Duration.not_mem_text (by decide) (by decide) _
  have noDash : '-' ∉ distance.text.toList := Duration.not_mem_text (by decide) (by decide) _
  have date : distance.text.toList.takeWhile (· != 'T') = distance.text.toList :=
    List.takeWhile_eq_self_iff.mpr fun c member =>
      bne_iff_ne.mpr fun same => noTime (same ▸ member)
  have noDate : Calendar.readDate? distance.text.toList = none := by
    rw [Calendar.readDate?, splitAtEach_of_not_mem noDash]
  simp only [Calendar.readSeconds?, beforeEnding?_of_not_mem (List.mem_singleton_self 'Z') noZone,
    Option.getD_none, splitAtFirst, date, noDate]
  rfl

/-- A distance into the past is what is before the last three letters. -/
theorem read?_shown_ago (read : Duration.read? distance.text.toList = some distance) :
    read? (ago distance).shown.toList = some (ago distance) := by
  obtain ⟨first, rest, digits, isDigit⟩ := distance.isDigit_head_text
  have nonempty : distance.text.toList ≠ [] := by simp [digits]
  have visible : ∀ c ∈ distance.text.toList, isBlank c = false :=
    fun c => Duration.not_isBlank_of_mem_text
  have written : (ago distance).shown.toList =
      (distance.text.toList ++ [' ']) ++ "ago".toList := by
    rw [shown, String.toList_append, List.append_assoc]
    rfl
  have trimmed := trim_shown (ago distance)
  have unnamed : ∀ c ∈ ((distance.text.toList ++ [' ']) ++ "ago".toList).head?,
      c.isAlpha = false := by
    rw [List.append_assoc, List.head?_append_of_ne_nil _ nonempty]
    exact isAlpha_head_text
  have blank : ∀ c ∈ [' '], isBlank c = true := by
    intro c member
    obtain rfl := List.mem_singleton.mp member
    decide
  have spaced : Duration.read? (distance.text.toList ++ [' ']) = some distance := by
    rw [← read]
    refine Duration.read?_of_trim_eq ?_
    rw [trim_of_forall visible]
    exact trim_append_blanks nonempty (fun c isFirst => visible c (List.mem_of_mem_head? isFirst))
      (fun c isLast => visible c (List.mem_of_mem_getLast? isLast)) blank
  rw [written] at trimmed ⊢
  rw [read?_of_unnamed trimmed unnamed, beforeEnding?_append]
  exact congrArg (Option.map ago) spaced

/-- A duration by itself is what remains when everything else was tried. -/
theorem read?_shown_offset (read : Duration.read? distance.text.toList = some distance) :
    read? (offset distance).shown.toList = some (offset distance) := by
  have noAgo : 'o' ∉ distance.text.toList := Duration.not_mem_text (by decide) (by decide) _
  rw [read?_of_unnamed (trim_shown (offset distance)) isAlpha_head_text, shown,
    beforeEnding?_of_not_mem (by decide) noAgo, readSigned_text, readSeconds?_text, read]
  rfl

end Distance

/-- A moment that was read is read again from what is shown of it. -/
theorem read?_shown {text : List Char} {moment : Moment} (found : read? text = some moment) :
    read? moment.shown.toList = some moment := by
  have names : ∀ named ∈ [endOfTime, now, beginning], read? named.shown.toList = some named := by
    decide
  cases moment with
  | endOfTime | now | beginning => exact names _ (by simp)
  | absolute seconds => exact read?_shown_absolute seconds
  | ago distance =>
      obtain ⟨written, read⟩ := exists_read?_distance found distance rfl
      exact read?_shown_ago (Duration.read?_text read)
  | offset distance =>
      obtain ⟨written, read⟩ := exists_read?_distance found distance rfl
      exact read?_shown_offset (Duration.read?_text read)

end Moment

end Flowgraph
