import Flowgraph.Proofs.Number.Rounding
import Mathlib.Data.Nat.Dist

/-!
# The nearest number

A number that is rounded to 53 significant bits becomes the nearest number with so few, and of
two that are equally near the one with a bit to spare (`isNearest_roundOff`).  There is no
other such number (`IsNearest.unique`), and a number that needs no more bits is its own nearest.

Between two neighbours with 53 significant bits there is none that has as few
(`Significant.le_or_le`), so that only the neighbours have to be compared.
-/

namespace Flowgraph.Number

/--
No number with at most 53 significant bits is nearer to the exact one, and if another is as
near, then this one has at most 52.
-/
structure IsNearest (exact nearest : Nat) : Prop where
  significant : Significant nearest
  minimal : ∀ other, Significant other → Nat.dist exact nearest ≤ Nat.dist exact other
  even : ∀ other, Significant other → other ≠ nearest →
    Nat.dist exact other = Nat.dist exact nearest →
      ∃ significand exponent, significand < 2 ^ 52 ∧ nearest = significand * 2 ^ exponent

open Binary64

/-- The number rounded to 53 significant bits. -/
def roundOff (number : Nat) : Nat :=
  roundHalfEven number (spacing number) * spacing number

/-! ## Neighbours -/

theorem spacing_pos (number : Nat) : 0 < spacing number :=
  Nat.two_pow_pos _

/-- There are less than `2 ^ 53` steps to a number, and if a step is more than one, half as many. -/
theorem steps_lt (number : Nat) : number / spacing number < 2 ^ 53 := by
  rw [Nat.div_lt_iff_lt_mul (spacing_pos number)]
  change number < 2 ^ 53 * 2 ^ (bitLength number - 53)
  rw [← Nat.pow_add, ← bitLength_le_iff]
  omega

theorem le_steps {number : Nat} (long : 53 < bitLength number) :
    2 ^ 52 ≤ number / spacing number := by
  rw [Nat.le_div_iff_mul_le (spacing_pos number)]
  change 2 ^ 52 * 2 ^ (bitLength number - 53) ≤ number
  rw [← Nat.pow_add]
  by_contra less
  have shorter := bitLength_le_iff.mpr (Nat.lt_of_not_le less)
  omega

/-- A number with few significant bits is at or below the one neighbour, or not below the other. -/
theorem Significant.le_or_le {other : Nat} (significant : Significant other) (number : Nat) :
    other ≤ number / spacing number * spacing number ∨
      (number / spacing number + 1) * spacing number ≤ other := by
  rcases Nat.lt_or_ge (number / spacing number * spacing number) other with above | below
  · right
    -- The number above has at least as many bits, so its distance to others is a multiple.
    have divides : spacing number ∣ other := by
      refine (Nat.pow_dvd_pow 2 ?_).trans (spacing_dvd significant)
      rcases Nat.lt_or_ge 53 (bitLength number) with long | short
      · have steps := Nat.mul_le_mul_right (spacing number) (le_steps long)
        have power : 2 ^ 52 * spacing number = 2 ^ (bitLength number - 1) := by
          change 2 ^ 52 * 2 ^ (bitLength number - 53) = _
          rw [← Nat.pow_add]
          congr 1
          omega
        have notShorter : ¬ bitLength other ≤ bitLength number - 1 := by
          rw [bitLength_le_iff]
          omega
        omega
      · omega
    obtain ⟨count, rfl⟩ := divides
    rw [Nat.mul_comm (spacing number)] at above ⊢
    exact Nat.mul_le_mul_right _ (Nat.lt_of_mul_lt_mul_right above)
  · exact .inl below

/-! ## The nearest -/

theorem roundOff_of_significant {number : Nat} (significant : Significant number) :
    roundOff number = number := by
  have divides := spacing_dvd significant
  rw [roundOff, roundHalfEven_of_dvd (spacing_pos number) divides, Nat.div_mul_cancel divides]

/-- What is nearer to one of two neighbours is rounded to it, and what is between to the even. -/
theorem roundHalfEven_cases (numerator denominator : Nat) :
    let quotient := numerator / denominator
    let rounded := roundHalfEven numerator denominator
    (2 * (numerator % denominator) < denominator ∧ rounded = quotient) ∨
      (denominator < 2 * (numerator % denominator) ∧ rounded = quotient + 1) ∨
      (2 * (numerator % denominator) = denominator ∧ rounded % 2 = 0 ∧
        (rounded = quotient ∨ rounded = quotient + 1)) := by
  simp only [roundHalfEven]
  split_ifs <;> omega

/-- The number that rounding gives is as near as any other with at most 53 significant bits. -/
theorem isNearest_roundOff (exact : Nat) : IsNearest exact (roundOff exact) := by
  have parts := Nat.div_add_mod' exact (spacing exact)
  have remains := Nat.mod_lt exact (spacing_pos exact)
  have next : (exact / spacing exact + 1) * spacing exact = _ := Nat.succ_mul _ _
  have steps := steps_lt exact
  have rounded := roundHalfEven_cases exact (spacing exact)
  have atMost : roundHalfEven exact (spacing exact) ≤ 2 ^ 53 := by omega
  refine ⟨significant_mul_two_pow atMost _, fun other significant => ?_,
    fun other significant apart near => ?_⟩
  · have sides := significant.le_or_le exact
    simp only [Nat.dist, roundOff]
    obtain ⟨less, same⟩ | ⟨more, same⟩ | ⟨half, -, same | same⟩ := rounded
    all_goals
      rw [same]
      omega
  · have sides := significant.le_or_le exact
    simp only [Nat.dist, roundOff] at near apart
    obtain ⟨less, same⟩ | ⟨more, same⟩ | ⟨half, isEven, -⟩ := rounded
    · rw [same] at near apart
      omega
    · rw [same] at near apart
      omega
    · obtain ⟨count, twice⟩ := Nat.dvd_of_mod_eq_zero isEven
      have halved : roundOff exact = count * 2 ^ (1 + (bitLength exact - 53)) := by
        rw [roundOff, twice, Nat.pow_add, Nat.mul_comm 2, Nat.mul_assoc]
        rfl
      rcases Nat.lt_or_eq_of_le (show count ≤ 2 ^ 52 by omega) with fewer | rfl
      · exact ⟨count, _, fewer, halved⟩
      · exact ⟨1, 52 + (1 + (bitLength exact - 53)), by decide,
          by rw [halved, Nat.one_mul, ← Nat.pow_add]⟩

/-- An odd significand is not shortened by another exponent. -/
theorem le_of_odd {count exponent significand position : Nat} (odd : count % 2 = 1)
    (same : count * 2 ^ exponent = significand * 2 ^ position) : count ≤ significand := by
  have divides : count ∣ significand :=
    dvd_of_odd (Nat.odd_iff.mpr odd) (same ▸ Nat.dvd_mul_right count _)
  refine Nat.le_of_dvd (Nat.pos_of_ne_zero ?_) divides
  rintro rfl
  rw [Nat.zero_mul, Nat.mul_eq_zero] at same
  have positive := Nat.two_pow_pos exponent
  omega

/-- Two different numbers that are both nearest are the neighbours, below and above. -/
theorem IsNearest.eq_neighbours {exact first second : Nat} (isFirst : IsNearest exact first)
    (isSecond : IsNearest exact second) (less : first < second) :
    first = exact / spacing exact * spacing exact ∧
      second = (exact / spacing exact + 1) * spacing exact := by
  have parts := Nat.div_add_mod' exact (spacing exact)
  have remains := Nat.mod_lt exact (spacing_pos exact)
  have next : (exact / spacing exact + 1) * spacing exact = _ := Nat.succ_mul _ _
  have steps := steps_lt exact
  have low : Significant (exact / spacing exact * spacing exact) :=
    significant_mul_two_pow (Nat.le_of_lt steps) _
  have high : Significant ((exact / spacing exact + 1) * spacing exact) :=
    significant_mul_two_pow steps _
  have near := Nat.le_antisymm (isFirst.minimal _ isSecond.significant)
    (isSecond.minimal _ isFirst.significant)
  have nearLow := isFirst.minimal _ low
  have nearHigh := isSecond.minimal _ high
  have sides := isFirst.significant.le_or_le exact
  have sidesOther := isSecond.significant.le_or_le exact
  simp only [Nat.dist] at near nearLow nearHigh
  constructor <;> omega

/-- Of two neighbours that are equally near only one has a bit to spare. -/
theorem IsNearest.unique {exact first second : Nat} (isFirst : IsNearest exact first)
    (isSecond : IsNearest exact second) : first = second := by
  by_contra apart
  wlog less : first < second generalizing first second
  · exact this isSecond isFirst (Ne.symm apart) (by omega)
  have near := Nat.le_antisymm (isFirst.minimal _ isSecond.significant)
    (isSecond.minimal _ isFirst.significant)
  obtain ⟨significand, position, short, isLow⟩ :=
    isFirst.even _ isSecond.significant (Ne.symm apart) near.symm
  obtain ⟨other, place, shortOther, isHigh⟩ := isSecond.even _ isFirst.significant apart near
  obtain ⟨sameLow, sameHigh⟩ := isFirst.eq_neighbours isSecond less
  have long : 53 < bitLength exact := by
    -- A short number is its own neighbour, and no other is as near.
    by_contra short
    have significant := significant_of_lt (bitLength_le_iff.mp (Nat.le_of_not_lt short))
    have own := isFirst.minimal exact significant
    have ownOther := isSecond.minimal exact significant
    simp only [Nat.dist] at own ownOther
    omega
  have many := le_steps long
  rcases Nat.mod_two_eq_zero_or_one (exact / spacing exact) with isEven | odd
  · have fewer := le_of_odd (by omega) (sameHigh.symm.trans isHigh)
    omega
  · have fewer := le_of_odd odd (sameLow.symm.trans isLow)
    omega

theorem IsNearest.eq_of_significant {exact nearest : Nat} (isNearest : IsNearest exact nearest)
    (significant : Significant exact) : nearest = exact := by
  have own := isNearest_roundOff exact
  rw [roundOff_of_significant significant] at own
  exact isNearest.unique own

/-! ## Whole numbers of units -/

theorem bitLength_mul_two_pow {number : Nat} (nonzero : number ≠ 0) (exponent : Nat) :
    bitLength (number * 2 ^ exponent) = bitLength number + exponent := by
  refine Nat.le_antisymm ?_ ?_
  · rw [bitLength_le_iff, Nat.pow_add]
    exact Nat.mul_lt_mul_of_pos_right (bitLength_le_iff.mp (Nat.le_refl _)) (Nat.two_pow_pos _)
  · have less := bitLength_le_iff.mp (Nat.le_refl (bitLength (number * 2 ^ exponent)))
    have positive : 2 ^ exponent ≤ number * 2 ^ exponent :=
      Nat.le_mul_of_pos_left _ (Nat.pos_of_ne_zero nonzero)
    have longer : exponent < bitLength (number * 2 ^ exponent) :=
      (Nat.pow_lt_pow_iff_right (by decide)).mp (positive.trans_lt less)
    obtain ⟨more, length⟩ := Nat.exists_eq_add_of_lt longer
    have split : bitLength (number * 2 ^ exponent) = more + 1 + exponent := by omega
    rw [split, Nat.pow_add] at less
    have shorter := bitLength_le_iff.mpr (Nat.lt_of_mul_lt_mul_right less)
    omega

theorem roundHalfEven_mul_right {numerator denominator factor : Nat} (positive : 0 < factor) :
    roundHalfEven (numerator * factor) (denominator * factor) =
      roundHalfEven numerator denominator := by
  have less : 2 * (numerator % denominator * factor) < denominator * factor ↔
      2 * (numerator % denominator) < denominator := by
    rw [← Nat.mul_assoc, Nat.mul_lt_mul_right positive]
  have more : denominator * factor < 2 * (numerator % denominator * factor) ↔
      denominator < 2 * (numerator % denominator) := by
    rw [← Nat.mul_assoc, Nat.mul_lt_mul_right positive]
  simp only [roundHalfEven, Nat.mul_div_mul_right _ _ positive, Nat.mul_mod_mul_right, less, more]

/-- Rounding does not depend on the unit, if this is a power of two. -/
theorem roundOff_mul_two_pow (number exponent : Nat) :
    roundOff (number * 2 ^ exponent) = roundOff number * 2 ^ exponent := by
  rcases Nat.lt_or_ge number (2 ^ 53) with small | large
  · have significant := significant_of_lt small
    rw [roundOff_of_significant significant,
      roundOff_of_significant (significant.mul_two_pow exponent)]
  · have long : 53 < bitLength number := by
      by_contra short
      have less := bitLength_le_iff.mp (Nat.le_of_not_lt short)
      omega
    have step : spacing (number * 2 ^ exponent) = spacing number * 2 ^ exponent := by
      change 2 ^ (bitLength (number * 2 ^ exponent) - 53) =
        2 ^ (bitLength number - 53) * 2 ^ exponent
      rw [bitLength_mul_two_pow (by omega), ← Nat.pow_add]
      congr 1
      omega
    rw [roundOff, step, roundHalfEven_mul_right (Nat.two_pow_pos exponent), roundOff, Nat.mul_assoc]

namespace Binary64

/-- The number nearest to a whole number is whole, if it is finite. -/
theorem roundUnits_whole (number : Nat) :
    roundUnits false (number * unitsPerOne) 1 =
      if roundOff number * unitsPerOne < unitsLimit then
        finite false (roundOff number * unitsPerOne)
      else infinite false := by
  obtain ⟨exponent, -, -, one, -⟩ := exists_units_eq
  have units : roundHalfEven (number * unitsPerOne) (1 * spacing (number * unitsPerOne / 1)) *
      spacing (number * unitsPerOne / 1) = roundOff number * unitsPerOne := by
    rw [Nat.div_one, Nat.one_mul, one]
    exact roundOff_mul_two_pow number exponent
  simp only [roundUnits, units]

end Binary64

end Flowgraph.Number
