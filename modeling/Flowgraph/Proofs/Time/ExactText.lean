import Flowgraph.Proofs.Time.ReadBack

/-!
# Durations that are shown exactly

A duration is shown as a plain decimal number and the largest unit of which its whole
milliseconds are a multiple, and the product of the two is exactly this number of
milliseconds (`Duration.text_exact`).

From its text it is read again exactly if durations with so many milliseconds are read at
all: if their number has at most 53 significant bits and fits into a word, or if it is the
largest word (`Duration.read?_text_iff`).  A duration has room for a thousand times as many
milliseconds as there are words, but what is read stops at the largest word.
-/

namespace Flowgraph

open Number

namespace Number

/-- A row of digits that denotes a number, without a zero before other digits. -/
structure IsPlainNumeral (digits : List Char) (number : Nat) : Prop where
  denotes : readNatural digits = some number
  plain : digits.head? = some '0' → digits = ['0']

theorem isPlainNumeral_toString (number : Nat) :
    IsPlainNumeral (toString number).toList number where
  denotes := readNatural_toString number
  plain zero := by
    obtain rfl : number = 0 := by
      by_contra nonzero
      exact head?_toString_ne_zero nonzero zero
    rfl

/-- The words that numbers are cast to, as natural numbers. -/
theorem exists_isCast_iff {number : Nat} :
    (∃ word : UInt64, word.toNat = number ∧ IsCast word) ↔
      (Significant number ∧ number < 2 ^ 64) ∨ number = 2 ^ 64 - 1 := by
  constructor
  · rintro ⟨word, rfl, significant | largest⟩
    · exact .inl ⟨significant, word.toNat_lt⟩
    · exact .inr largest
  · rintro (⟨significant, fits⟩ | rfl)
    · have same : (UInt64.ofNat number).toNat = number := UInt64.toNat_ofNat_of_lt' fits
      exact ⟨UInt64.ofNat number, same, .inl (same.symm ▸ significant)⟩
    · exact ⟨UInt64.ofNat (2 ^ 64 - 1), by decide, .inr (by decide)⟩

end Number

namespace Duration

/-- The duration without the part of a millisecond. -/
def whole (duration : Duration) : Duration where
  nanoseconds := duration.milliseconds * Nat.pow 10 6
  bounded := (Nat.div_mul_le_self _ _).trans_lt duration.bounded

@[simp]
theorem milliseconds_whole (duration : Duration) :
    duration.whole.milliseconds = duration.milliseconds :=
  Nat.mul_div_cancel _ (by decide)

theorem whole_eq_ofMilliseconds {duration : Duration} {word : UInt64}
    (same : word.toNat = duration.milliseconds) : duration.whole = ofMilliseconds word := by
  simp only [whole, ofMilliseconds, same]

theorem isWhole_whole (duration : Duration) : duration.whole.IsWhole := by
  rw [IsWhole, milliseconds_whole, whole]

/-- The part of a millisecond is not shown. -/
theorem text_congr {first second : Duration} (same : first.milliseconds = second.milliseconds) :
    first.text = second.text := by
  simp only [text, same]

theorem IsWhole.whole_eq {duration : Duration} (isWhole : duration.IsWhole) :
    duration.whole = duration :=
  text_inj duration.isWhole_whole isWhole (text_congr duration.milliseconds_whole)

/-- A duration that was read has a number of milliseconds to which numbers are cast. -/
theorem milliseconds_of_read? {text : List Char} {duration : Duration}
    (found : read? text = some duration) :
    (Significant duration.milliseconds ∧ duration.milliseconds < 2 ^ 64) ∨
      duration.milliseconds = 2 ^ 64 - 1 := by
  obtain ⟨word, rfl, isCast⟩ := exists_isCast_of_read? found
  exact exists_isCast_iff.mp ⟨word, (milliseconds_ofMilliseconds word).symm, isCast⟩

/-- Whole milliseconds are read again from the text exactly if so many can be read. -/
theorem read?_text_iff (duration : Duration) :
    read? duration.text.toList = some duration.whole ↔
      (Significant duration.milliseconds ∧ duration.milliseconds < 2 ^ 64) ∨
        duration.milliseconds = 2 ^ 64 - 1 := by
  constructor
  · intro found
    simpa using milliseconds_of_read? found
  · intro readable
    obtain ⟨word, same, isCast⟩ := exists_isCast_iff.mpr readable
    rw [whole_eq_ofMilliseconds same,
      text_congr (same.symm.trans (milliseconds_ofMilliseconds word).symm)]
    exact read?_text_of_isCast isCast

/-! ## Main result -/

/-- What is shown of a duration is exact, and what of it can be read again. -/
structure ShownExactly (duration : Duration) : Prop where
  /-- A count of the largest unit, as long in milliseconds as it is read to be. -/
  counted : ∃ digits count unit, duration.text.toList = digits ++ unit.1.toList ∧
    IsPlainNumeral digits count ∧ IsLargestUnit duration.milliseconds unit ∧
    unitMilliseconds? unit.1 = some unit.2 ∧ count * unit.2 = duration.milliseconds
  /-- Durations with the same text differ by less than a millisecond. -/
  known : ∀ other : Duration,
    duration.text = other.text ↔ duration.milliseconds = other.milliseconds
  /-- What is read from the text is the duration, to a millisecond, if so many can be read. -/
  readAgain : read? duration.text.toList = some duration.whole ↔
    (Significant duration.milliseconds ∧ duration.milliseconds < 2 ^ 64) ∨
      duration.milliseconds = 2 ^ 64 - 1
  /-- So many can be read of a small number, -/
  small : duration.milliseconds ≤ 2 ^ 53 → Significant duration.milliseconds
  /-- and of one that was read and is not the largest. -/
  fromText : ∀ text, read? text = some duration → duration.milliseconds < 2 ^ 64 - 1 →
    Significant duration.milliseconds

/--
Every duration is shown exactly, as a count of the largest unit in which its milliseconds are
whole.  It is read again from its text if the number of its milliseconds has at most 53
significant bits and fits into a word, and if it is the largest word.
-/
theorem text_exact (duration : Duration) : duration.ShownExactly where
  counted := by
    obtain ⟨count, unit, isLargest, shown, value⟩ := duration.exists_text_isLargestUnit
    refine ⟨(toString count).toList, count, unit, ?_, isPlainNumeral_toString count, isLargest,
      unitMilliseconds?_of_mem_shownUnits unit isLargest.shown, value.symm⟩
    rw [shown, String.toList_append]
  known other := ⟨milliseconds_eq_of_text_eq, text_congr⟩
  readAgain := duration.read?_text_iff
  small atMost := by simpa using significant_mul_two_pow atMost 0
  fromText text found below := by
    rcases milliseconds_of_read? found with ⟨significant, -⟩ | largest
    · exact significant
    · omega

/-- So many days that their milliseconds are beyond `2 ^ 53`, but with few significant bits. -/
def manyDays : Duration :=
  ⟨Nat.pow 2 36 * 86400000 * Nat.pow 10 6, by decide⟩

theorem text_exact_manyDays :
    read? "68719476736 days".toList = some manyDays ∧ 2 ^ 53 < manyDays.milliseconds ∧
      Significant manyDays.milliseconds ∧ read? manyDays.text.toList = some manyDays := by
  have shown := text_exact manyDays
  have found : read? "68719476736 days".toList = some manyDays := by decide +kernel
  have isWhole : manyDays.whole = manyDays := (isWhole_of_read? found).whole_eq
  have significant := shown.fromText _ found (by decide)
  refine ⟨found, by decide, significant, ?_⟩
  rw [shown.readAgain.mpr (.inl ⟨significant, by decide⟩), isWhole]

/-- The first number of milliseconds that is no word. -/
def beyondWords : Duration :=
  ⟨Nat.pow 2 64 * Nat.pow 10 6, by decide⟩

/-- It has a single significant bit, and yet the largest word is read from its text. -/
theorem beyondWords_notReadAgain :
    Significant beyondWords.milliseconds ∧ beyondWords.text = "18446744073709551616ms" ∧
      read? beyondWords.text.toList = some (ofMilliseconds 18446744073709551615) ∧
      read? beyondWords.text.toList ≠ some beyondWords.whole := by
  exact ⟨⟨1, 64, by decide, by decide⟩, by decide +kernel, by decide +kernel, by decide +kernel⟩

end Duration

end Flowgraph
