import Flowgraph.Number.Basic
import Mathlib.Data.Nat.Factorization.Basic
import Mathlib.Tactic.Ring
import Mathlib.Tactic.SplitIfs

/-!
# Numbers that rounding keeps

A magnitude of at most 53 significant bits is its own nearest number (`Significant`), and
whatever is read or multiplied is rounded to such a magnitude (`Binary64.Representable`).

So the words that numbers are cast to have at most 53 significant bits, or they are the
largest word, at which the cast stops (`IsCast`).  Such a word is known from its decimal
digits, although it may be greater than `2 ^ 53` and although the digits of the largest word
denote a number that is too large for a word (`exists_ofDecimal`).
-/

namespace Flowgraph.Number

/-! ## Significant bits -/

/-- The number has at most 53 significant bits. -/
def Significant (number : Nat) : Prop :=
  ∃ significand exponent, significand < 2 ^ 53 ∧ number = significand * 2 ^ exponent

theorem significant_of_lt {number : Nat} (small : number < 2 ^ 53) : Significant number :=
  ⟨number, 0, small, by rw [Nat.pow_zero, Nat.mul_one]⟩

/-- A significand that is rounded up to the next power of two loses all its bits but one. -/
theorem significant_mul_two_pow {significand : Nat} (atMost : significand ≤ 2 ^ 53)
    (exponent : Nat) : Significant (significand * 2 ^ exponent) := by
  rcases Nat.lt_or_eq_of_le atMost with less | rfl
  · exact ⟨significand, exponent, less, rfl⟩
  · exact ⟨1, 53 + exponent, by decide, by rw [Nat.one_mul, Nat.pow_add]⟩

/-- An odd number does not need the power of two in what it divides. -/
theorem dvd_of_odd {odd significand position : Nat} (isOdd : Odd odd)
    (divides : odd ∣ significand * 2 ^ position) : odd ∣ significand :=
  (Nat.Coprime.pow_right position (Nat.coprime_two_right.mpr isOdd)).dvd_of_dvd_mul_right divides

namespace Significant

variable {number : Nat}

theorem mul_two_pow (significant : Significant number) (exponent : Nat) :
    Significant (number * 2 ^ exponent) := by
  obtain ⟨significand, position, small, rfl⟩ := significant
  exact ⟨significand, position + exponent, small, by rw [Nat.mul_assoc, Nat.pow_add]⟩

/-- The odd part of a divisor divides the significand. -/
theorem of_dvd (significant : Significant number) {divisor : Nat} (divides : divisor ∣ number)
    (nonzero : number ≠ 0) : Significant divisor := by
  obtain ⟨significand, position, small, rfl⟩ := significant
  obtain ⟨exponent, odd, isOdd, rfl⟩ :=
    Nat.exists_eq_two_pow_mul_odd (ne_zero_of_dvd_ne_zero nonzero divides)
  have inSignificand : odd ∣ significand :=
    dvd_of_odd isOdd ((Nat.dvd_mul_left odd (2 ^ exponent)).trans divides)
  have positive : 0 < significand := Nat.pos_of_ne_zero (left_ne_zero_of_mul nonzero)
  exact ⟨odd, exponent, (Nat.le_of_dvd positive inSignificand).trans_lt small, Nat.mul_comm _ _⟩

end Significant

theorem bitLength_le_iff {number count : Nat} : bitLength number ≤ count ↔ number < 2 ^ count := by
  rw [bitLength]
  split_ifs with zero
  · simp [zero]
  · rw [Nat.succ_le_iff, Nat.log2_lt zero]

/-! ## Rounding -/

theorem roundHalfEven_of_dvd {numerator denominator : Nat} (positive : 0 < denominator)
    (divides : denominator ∣ numerator) :
    roundHalfEven numerator denominator = numerator / denominator := by
  simp [roundHalfEven, Nat.mod_eq_zero_of_dvd divides, positive]

theorem roundHalfEven_le (numerator denominator : Nat) :
    roundHalfEven numerator denominator ≤ numerator / denominator + 1 := by
  simp only [roundHalfEven]
  split_ifs <;> omega

namespace Binary64

/-- One is a power of two units, and the finite numbers go on far beyond the largest word. -/
theorem exists_units_eq : ∃ exponent range, 64 < range ∧ unitsPerOne = 2 ^ exponent ∧
    unitsLimit = 2 ^ (range + exponent) := by
  refine ⟨1074, 1024, by decide, ?_, ?_⟩
  -- The powers are too large to be looked into.
  · delta unitsPerOne
    generalize 1074 = exponent
    rfl
  · have split : 2098 = 1024 + 1074 := rfl
    delta unitsLimit
    rw [split]
    generalize 1074 = exponent
    rfl

theorem unitsPerOne_pos : 0 < unitsPerOne := by
  obtain ⟨exponent, -, -, one, -⟩ := exists_units_eq
  rw [one]
  exact Nat.two_pow_pos exponent

/-- The whole numbers up to the end of a word are finite. -/
theorem whole_lt_unitsLimit {count : Nat} (atMost : count ≤ 2 ^ 64) :
    count * unitsPerOne < unitsLimit := by
  obtain ⟨exponent, range, beyond, one, limit⟩ := exists_units_eq
  have less : count < 2 ^ range := atMost.trans_lt (Nat.pow_lt_pow_right (by decide) beyond)
  rw [limit, one, Nat.pow_add]
  exact Nat.mul_lt_mul_of_pos_right less (Nat.two_pow_pos exponent)

/-- The number is one of the format. -/
def Representable (value : Binary64) : Prop :=
  ∀ negative units, value = finite negative units → Significant units ∧ units < unitsLimit

theorem spacing_dvd {units : Nat} (significant : Significant units) : spacing units ∣ units := by
  obtain ⟨significand, exponent, small, rfl⟩ := significant
  have bits : bitLength (significand * 2 ^ exponent) ≤ 53 + exponent := by
    rw [bitLength_le_iff, Nat.pow_add]
    exact Nat.mul_lt_mul_of_pos_right small (Nat.two_pow_pos exponent)
  exact (Nat.pow_dvd_pow 2 (by omega)).trans (Nat.dvd_mul_left _ _)

/-- A magnitude of the format is its own nearest. -/
theorem roundUnits_of_significant (negative : Bool) {units : Nat} (significant : Significant units)
    (below : units < unitsLimit) : roundUnits negative units 1 = finite negative units := by
  have divides := spacing_dvd significant
  have positive : 0 < spacing units := Nat.two_pow_pos _
  have kept : roundHalfEven units (spacing units) * spacing units = units := by
    rw [roundHalfEven_of_dvd positive divides, Nat.div_mul_cancel divides]
  rw [roundUnits]
  simp only [Nat.div_one, Nat.one_mul, kept, if_pos below]

/-- What is rounded is rounded to a magnitude of the format. -/
theorem representable_roundUnits (negative : Bool) (numerator denominator : Nat) :
    (roundUnits negative numerator denominator).Representable := by
  have quotient : numerator / denominator <
      2 ^ 53 * 2 ^ (bitLength (numerator / denominator) - 53) := by
    rw [← Nat.pow_add, ← bitLength_le_iff]
    omega
  have step : spacing (numerator / denominator) =
      2 ^ (bitLength (numerator / denominator) - 53) := rfl
  have rounded := roundHalfEven_le numerator (denominator * spacing (numerator / denominator))
  have bound := (Nat.div_lt_iff_lt_mul (Nat.two_pow_pos _)).mpr quotient
  rw [← Nat.div_div_eq_div_mul, step] at rounded
  intro sign units same
  rw [roundUnits, step] at same
  rcases Nat.lt_or_ge (roundHalfEven numerator (denominator *
      2 ^ (bitLength (numerator / denominator) - 53)) *
      2 ^ (bitLength (numerator / denominator) - 53)) unitsLimit with below | above
  · simp only [if_pos below, finite.injEq] at same
    obtain ⟨-, rfl⟩ := same
    exact ⟨significant_mul_two_pow (rounded.trans bound) _, below⟩
  · simp only [if_neg above.not_gt, reduceCtorEq] at same

/-! ## Reading and casting -/

theorem Representable.scale {value : Binary64} (representable : value.Representable)
    (factor : Nat) : (value.scale factor).Representable := by
  cases value with
  | infinite negative => exact representable
  | finite negative units => exact representable_roundUnits negative (units * factor) 1

theorem representable_of_read {text : List Char} {value : Binary64}
    (found : read text = some value) : value.Representable := by
  simp only [read] at found
  split at found
  · split_ifs at found
    obtain rfl := Option.some.inj found
    rw [ofDecimal]
    exact representable_roundUnits _ _ _
  · cases found

theorem rounded_whole (count : Nat) :
    (2 * (count * unitsPerOne) + unitsPerOne) / (2 * unitsPerOne) = count := by
  have positive := unitsPerOne_pos
  generalize unitsPerOne = one at positive
  have parts : 2 * (count * one) + one = one + 2 * one * count := by ring
  rw [parts, Nat.add_mul_div_left _ _ (by omega), Nat.div_eq_of_lt (by omega), Nat.zero_add]

/-- Whole numbers are cast to themselves, or to the largest word. -/
theorem toWord_whole (count : Nat) :
    (finite false (count * unitsPerOne)).toWord = UInt64.ofNat (min count (UInt64.size - 1)) := by
  simp only [toWord, rounded_whole, Bool.false_eq_true, if_false]

/-- What is not below zero is cast to the nearest natural number, or to the largest word. -/
theorem toNat_toWord (units : Nat) : (finite false units).toWord.toNat =
    min ((2 * units + unitsPerOne) / (2 * unitsPerOne)) (UInt64.size - 1) := by
  have small := min_le_right ((2 * units + unitsPerOne) / (2 * unitsPerOne)) (UInt64.size - 1)
  simp only [toWord, Bool.false_eq_true, if_false, UInt64.toNat_ofNat']
  exact Nat.mod_eq_of_lt (Nat.lt_of_le_of_lt small (by decide))

/-- The nearest natural number has no more significant bits. -/
theorem significant_rounded {units : Nat} (significant : Significant units) :
    Significant ((2 * units + unitsPerOne) / (2 * unitsPerOne)) := by
  obtain ⟨significand, exponent, small, rfl⟩ := significant
  obtain ⟨one, -, -, isOne, -⟩ := exists_units_eq
  rcases Nat.le_total one exponent with whole | fraction
  · obtain ⟨more, rfl⟩ := Nat.exists_eq_add_of_le whole
    have value : significand * 2 ^ (one + more) = significand * 2 ^ more * unitsPerOne := by
      rw [isOne, Nat.pow_add, Nat.mul_comm (2 ^ one), Nat.mul_assoc]
    rw [value, rounded_whole]
    exact ⟨significand, more, small, rfl⟩
  · obtain ⟨more, rfl⟩ := Nat.exists_eq_add_of_le fraction
    have positive := unitsPerOne_pos
    have scaled : significand * 2 ^ exponent ≤ significand * unitsPerOne := by
      rw [isOne, Nat.pow_add]
      exact Nat.mul_le_mul_left _ (Nat.le_mul_of_pos_right _ (Nat.two_pow_pos more))
    have atMost : (2 * (significand * 2 ^ exponent) + unitsPerOne) / (2 * unitsPerOne) <
        significand + 1 := by
      rw [Nat.div_lt_iff_lt_mul (by omega)]
      have parts : (significand + 1) * (2 * unitsPerOne) =
          2 * (significand * unitsPerOne) + 2 * unitsPerOne := by ring
      omega
    exact significant_of_lt (by omega)

end Binary64

open Binary64

/-- The words that numbers are cast to: of at most 53 significant bits, or the largest. -/
def IsCast (word : UInt64) : Prop :=
  Significant word.toNat ∨ word.toNat = UInt64.size - 1

theorem isCast_toWord {value : Binary64} (representable : value.Representable) :
    IsCast value.toWord := by
  have zero : IsCast 0 := .inl (significant_of_lt (by decide))
  cases value with
  | infinite negative =>
      cases negative with
      | true => exact zero
      | false => exact .inr (by decide)
  | finite negative units =>
      cases negative with
      | true => exact zero
      | false =>
          rw [IsCast, toNat_toWord]
          rcases min_choice ((2 * units + unitsPerOne) / (2 * unitsPerOne)) (UInt64.size - 1)
            with small | large
          · rw [small]
            exact .inl (significant_rounded (representable _ _ rfl).1)
          · exact .inr large

theorem ofDecimal_of_significant {count : Nat} (significant : Significant count)
    (atMost : count ≤ 2 ^ 64) : ofDecimal false count 0 = finite false (count * unitsPerOne) := by
  obtain ⟨exponent, -, -, one, -⟩ := exists_units_eq
  have whole : Significant (count * unitsPerOne) := one ▸ significant.mul_two_pow exponent
  exact roundUnits_of_significant false whole (whole_lt_unitsLimit atMost)

/-- The digits of the largest word denote the number after it. -/
theorem ofDecimal_largest :
    ofDecimal false (UInt64.size - 1) 0 = finite false (UInt64.size * unitsPerOne) := by
  decide +kernel

/--
A word that is a count of units of some length is known from the digits of the count: they
denote a whole number, and as many units are again cast to the word.  Only the digits of the
largest word denote another number, and this word is a multiple of no unit but one.
-/
theorem exists_ofDecimal {word : UInt64} (isCast : IsCast word) {count factor : Nat}
    (value : word.toNat = count * factor) (positive : 0 < factor)
    (alone : word.toNat = UInt64.size - 1 → factor = 1) :
    ∃ whole, ofDecimal false count 0 = finite false (whole * unitsPerOne) ∧
      Significant (whole * factor) ∧ whole * factor ≤ 2 ^ 64 ∧
      UInt64.ofNat (min (whole * factor) (UInt64.size - 1)) = word := by
  have bound := word.toNat_lt
  rcases isCast with significant | largest
  · have counted : Significant count := by
      rcases Nat.eq_zero_or_pos count with rfl | some
      · exact significant_of_lt (by decide)
      · rw [value] at significant
        exact significant.of_dvd (Nat.dvd_mul_right count factor) (Nat.mul_pos some positive).ne'
    have fewer : count ≤ count * factor := Nat.le_mul_of_pos_right count positive
    have inWord : min word.toNat (UInt64.size - 1) = word.toNat :=
      Nat.min_eq_left (Nat.le_sub_one_of_lt bound)
    refine ⟨count, ofDecimal_of_significant counted (by omega), value ▸ significant, by omega, ?_⟩
    rw [← value, inWord, UInt64.ofNat_toNat]
  · obtain rfl := alone largest
    rw [Nat.mul_one, largest] at value
    refine ⟨UInt64.size, value ▸ ofDecimal_largest, ?_, Nat.le_of_eq (Nat.mul_one _), ?_⟩
    · exact ⟨1, 64, by decide, by decide⟩
    · rw [← UInt64.toNat_inj, largest]
      decide

/-- So many units are cast to the word of their number, or to the largest word. -/
theorem toWord_scale_whole {whole factor : Nat} (significant : Significant (whole * factor))
    (atMost : whole * factor ≤ 2 ^ 64) :
    ((finite false (whole * unitsPerOne)).scale factor).toWord =
      UInt64.ofNat (min (whole * factor) (UInt64.size - 1)) := by
  obtain ⟨exponent, -, -, one, -⟩ := exists_units_eq
  have units : whole * unitsPerOne * factor = whole * factor * unitsPerOne := by ring
  have kept : Significant (whole * factor * unitsPerOne) := one ▸ significant.mul_two_pow exponent
  rw [scale, units, roundUnits_of_significant false kept (whole_lt_unitsLimit atMost),
    toWord_whole]

end Flowgraph.Number
