import Flowgraph.Time.Moment
import Mathlib.Algebra.Group.Int.Defs
import Mathlib.Tactic.SplitIfs

/-!
# Moments without a failure

The number of days of a date and the second of a time are computed step by step in signed
words of 64 bits.  A guarded computation gives nothing if a step leaves the range of a word.
Quotients are rounded towards zero there, which is why a year before the first era is taken
to the beginning of its era first.

A date has a year of 32 bits, and a month and a day within their bounds.  So every step stays
far inside the range (`Calendar.guardedSeconds_eq`), and every moment is read without a failure
(`Moment.guardedRead_eq`).
-/

namespace Flowgraph

namespace Calendar

/-! ## Guarded computations -/

/-- A number, if a signed word of 64 bits has room for it. -/
def word? (value : Int) : Option Int :=
  if -2 ^ 63 ≤ value ∧ value < 2 ^ 63 then some value else none

/-- The year that begins in March, if it fits into a word. -/
def guardedMarchYear (year : Int) (month : Nat) : Option Int :=
  if month ≤ 2 then word? (year - 1) else some year

/-- The era of a year, by a quotient that is rounded towards zero. -/
def guardedEra (marchYear : Int) : Option Int :=
  if 0 ≤ marchYear then some (marchYear.tdiv 400)
  else (word? (marchYear - 399)).map fun dividend => dividend.tdiv 400

/-- The month counted from March, if it fits into a word. -/
def guardedMarchMonth (month : Nat) : Option Int :=
  if 2 < month then word? (month - 3) else word? (month + 9)

/-- The day of a year that begins in March, if every step to it fits into a word. -/
def guardedDayOfYear (month day : Nat) : Option Int := do
  let fifths ← word? ((← word? (153 * (← guardedMarchMonth month))) + 2)
  word? ((← word? (fifths.tdiv 5 + day)) - 1)

/-- The day of an era, if every step to it fits into a word. -/
def guardedDayOfEra (yearOfEra dayOfYear : Int) : Option Int := do
  let leapDays ← word? ((← word? (yearOfEra * 365)) + yearOfEra.tdiv 4)
  word? ((← word? (leapDays - yearOfEra.tdiv 100)) + dayOfYear)

/-- The number of days of a date, if every step to it fits into a word. -/
def guardedDayNumber (year : Int) (month day : Nat) : Option Int := do
  let marchYear ← guardedMarchYear year month
  let era ← guardedEra marchYear
  let yearOfEra ← word? (marchYear - (← word? (era * 400)))
  let dayOfEra ← guardedDayOfEra yearOfEra (← guardedDayOfYear month day)
  word? ((← word? ((← word? (era * 146097)) + dayOfEra)) - 719468)

/-- The second of a time of the day, if every step to it fits into a word. -/
def guardedSecondOfDay (hour minute second : Int) : Option (Option Int) :=
  if (0 ≤ hour ∧ hour < 24) ∧ (0 ≤ minute ∧ minute < 60) ∧ (0 ≤ second ∧ second < 60) then do
    let minutes ← word? ((← word? (hour * 3600)) + (← word? (minute * 60)))
    return some (← word? (minutes + second))
  else some none

/-- Read a time of the day, if no step leaves the range of a word. -/
def guardedTime (text : List Char) : Option (Option Int) :=
  match Text.splitAtEach ':' text with
  | [hourText, minuteText] =>
      match Number.readSigned 64 hourText, Number.readSigned 64 minuteText with
      | some hour, some minute => guardedSecondOfDay hour minute 0
      | _, _ => some none
  | [hourText, minuteText, secondText] =>
      match Number.readSigned 64 hourText, Number.readSigned 64 minuteText,
          Number.readSigned 64 secondText with
      | some hour, some minute, some second => guardedSecondOfDay hour minute second
      | _, _, _ => some none
  | _ => some none

/--
Read a date, if no step leaves the range of a word.  The last product and the last sum are
checked by the program itself, which refuses the date if they do not fit.
-/
def guardedSeconds (text : List Char) : Option (Option Int64) :=
  let body := (Text.beforeEnding? ['Z'] text).getD text
  let (dateText, timeText) := Text.splitAtFirst 'T' body
  match readDate? dateText with
  | none => some none
  | some (year, month, day) => do
      let time ← match timeText with
        | some time => guardedTime time
        | none => some (some 0)
      match time with
      | none => return none
      | some second =>
          let days ← guardedDayNumber year month day
          return (exactWord? (days * 86400)).bind fun midnight =>
            exactWord? (midnight.toInt + second)

/-! ## Every step fits -/

/-- An integer in the range of words is a word. -/
theorem word?_eq {value : Int} (low : -2 ^ 63 ≤ value) (high : value < 2 ^ 63) :
    word? value = some value :=
  if_pos ⟨low, high⟩

/-- What a date has been checked for before its days are counted. -/
theorem bounds_of_readDate? {text : List Char} {year : Int} {month day : Nat}
    (read : readDate? text = some (year, month, day)) :
    (-2 ^ 31 ≤ year ∧ year < 2 ^ 31) ∧ (1 ≤ month ∧ month ≤ 12) ∧ 1 ≤ day ∧ day ≤ 31 := by
  rw [readDate?] at read
  split at read
  · simp only [Option.bind_eq_bind, Option.bind_eq_some_iff, Option.ite_none_right_eq_some,
      Option.some.injEq, Prod.mk.injEq] at read
    obtain ⟨_, readYear, _, -, _, -, bounds, rfl, rfl, rfl⟩ := read
    obtain ⟨-, inWord⟩ := Option.filter_eq_some_iff.mp readYear
    exact ⟨of_decide_eq_true inWord, ⟨bounds.1, bounds.2.1⟩, bounds.2.2⟩
  · cases read

/-- The year that begins in March is at most one less than the year. -/
theorem guardedMarchYear_eq {year : Int} (month : Nat) (inWord : -2 ^ 31 ≤ year ∧ year < 2 ^ 31) :
    ∃ marchYear, marchYear = (if month ≤ 2 then year - 1 else year) ∧
      guardedMarchYear year month = some marchYear ∧
      -2 ^ 31 - 1 ≤ marchYear ∧ marchYear < 2 ^ 31 := by
  refine ⟨_, rfl, ?_⟩
  rw [guardedMarchYear]
  split_ifs
  · exact ⟨word?_eq (by omega) (by omega), by omega, by omega⟩
  · exact ⟨rfl, by omega, by omega⟩

/-- A quotient that is rounded down, found by one that is rounded towards zero. -/
theorem guardedEra_eq {marchYear : Int} (low : -2 ^ 31 - 1 ≤ marchYear) :
    guardedEra marchYear = some (marchYear / 400) := by
  rw [guardedEra]
  split_ifs with positive
  · rw [Int.tdiv_eq_ediv_of_nonneg positive]
  · have opposite : (marchYear - 399).tdiv 400 = -((399 - marchYear) / 400) := by
      rw [← Int.tdiv_eq_ediv_of_nonneg (by omega), ← Int.neg_tdiv, Int.neg_sub]
    rw [word?_eq (by omega) (by omega), Option.map_some, opposite]
    congr 1
    omega

/-- Months from March on are numbered from zero to eleven. -/
theorem guardedMarchMonth_eq {month : Nat} (inYear : 1 ≤ month ∧ month ≤ 12) :
    ∃ marchMonth : Int, marchMonth = (if 2 < month then (month : Int) - 3 else month + 9) ∧
      guardedMarchMonth month = some marchMonth ∧ 0 ≤ marchMonth ∧ marchMonth ≤ 11 := by
  refine ⟨_, rfl, ?_⟩
  rw [guardedMarchMonth]
  split_ifs <;> exact ⟨word?_eq (by omega) (by omega), by omega, by omega⟩

/-- The days of a year that begins in March are numbered from zero, below four hundred. -/
theorem guardedDayOfYear_eq {month day : Nat} (inYear : 1 ≤ month ∧ month ≤ 12)
    (inMonth : 1 ≤ day ∧ day ≤ 31) :
    ∃ dayOfYear : Int, dayOfYear =
        (153 * (if 2 < month then (month : Int) - 3 else month + 9) + 2) / 5 + day - 1 ∧
      guardedDayOfYear month day = some dayOfYear ∧ 0 ≤ dayOfYear ∧ dayOfYear < 400 := by
  obtain ⟨marchMonth, isMonth, guarded, first, last⟩ := guardedMarchMonth_eq inYear
  refine ⟨_, rfl, ?_, ?_⟩
  · rw [← isMonth, guardedDayOfYear, guarded]
    simp (disch := omega) only [word?_eq, Option.bind_eq_bind, Option.bind_some,
      Int.tdiv_eq_ediv_of_nonneg]
  · rw [← isMonth]
    omega

/-- The days of four hundred years are numbered from zero, in the range of half words. -/
theorem guardedDayOfEra_eq {yearOfEra dayOfYear : Int} (inEra : 0 ≤ yearOfEra ∧ yearOfEra < 400)
    (inYear : 0 ≤ dayOfYear ∧ dayOfYear < 400) :
    ∃ dayOfEra : Int,
      dayOfEra = yearOfEra * 365 + yearOfEra / 4 - yearOfEra / 100 + dayOfYear ∧
      guardedDayOfEra yearOfEra dayOfYear = some dayOfEra ∧ 0 ≤ dayOfEra ∧
      dayOfEra < 2 ^ 31 := by
  refine ⟨_, rfl, ?_, ?_⟩
  · rw [guardedDayOfEra]
    simp (disch := omega) only [word?_eq, Option.bind_eq_bind, Option.bind_some,
      Int.tdiv_eq_ediv_of_nonneg]
  · omega

/-- The number of a day is computed without leaving the range of words. -/
theorem guardedDayNumber_eq {year : Int} {month day : Nat}
    (inWord : -2 ^ 31 ≤ year ∧ year < 2 ^ 31) (inYear : 1 ≤ month ∧ month ≤ 12)
    (inMonth : 1 ≤ day ∧ day ≤ 31) :
    guardedDayNumber year month day = some (dayNumber year month day) := by
  obtain ⟨marchYear, isYear, guardedYear, low, high⟩ := guardedMarchYear_eq month inWord
  obtain ⟨dayOfYear, isDay, guardedDay, beforeYear⟩ := guardedDayOfYear_eq inYear inMonth
  have inEra : 0 ≤ marchYear - marchYear / 400 * 400 ∧
      marchYear - marchYear / 400 * 400 < 400 := by omega
  obtain ⟨dayOfEra, isDayOfEra, guardedDayOfEra, beforeEra⟩ := guardedDayOfEra_eq inEra beforeYear
  have total : dayNumber year month day = marchYear / 400 * 146097 + dayOfEra - 719468 := by
    rw [isDayOfEra, isDay, isYear]
    rfl
  have before : word? (marchYear / 400 * 400) = some _ := word?_eq (by omega) (by omega)
  have yearOfEra : word? (marchYear - marchYear / 400 * 400) = some _ :=
    word?_eq (by omega) (by omega)
  have eras : word? (marchYear / 400 * 146097) = some _ := word?_eq (by omega) (by omega)
  have days : word? (marchYear / 400 * 146097 + dayOfEra) = some _ := word?_eq (by omega) (by omega)
  simp only [guardedDayNumber, guardedYear, guardedEra_eq low, guardedDay, guardedDayOfEra, before,
    yearOfEra, eras, days, Option.bind_eq_bind, Option.bind_some, total]
  exact word?_eq (by omega) (by omega)

/-- The second of a day is computed without leaving the range of words. -/
theorem guardedSecondOfDay_eq (hour minute second : Int) :
    guardedSecondOfDay hour minute second = some (secondOfDay? hour minute second) := by
  rw [guardedSecondOfDay, secondOfDay?]
  split_ifs
  · simp (disch := omega) only [word?_eq, Option.bind_eq_bind, Option.bind_some]
    rfl
  · rfl

/-- A time of day is read without leaving the range of words. -/
theorem guardedTime_eq (text : List Char) : guardedTime text = some (readTime? text) := by
  rw [guardedTime, readTime?]
  match Text.splitAtEach ':' text with
  | [hourText, minuteText] =>
      cases hour : Number.readSigned 64 hourText <;>
        cases minute : Number.readSigned 64 minuteText <;>
          simp [hour, minute, guardedSecondOfDay_eq]
  | [hourText, minuteText, secondText] =>
      cases hour : Number.readSigned 64 hourText <;>
        cases minute : Number.readSigned 64 minuteText <;>
          cases second : Number.readSigned 64 secondText <;>
            simp [hour, minute, second, guardedSecondOfDay_eq]
  | [] | [_] | _ :: _ :: _ :: _ :: _ => rfl

/-- A date is read without a step that leaves the range of a word. -/
theorem guardedSeconds_eq (text : List Char) : guardedSeconds text = some (readSeconds? text) := by
  rw [guardedSeconds, readSeconds?]
  obtain ⟨dateText, timeText⟩ := Text.splitAtFirst 'T' ((Text.beforeEnding? ['Z'] text).getD text)
  cases read : readDate? dateText with
  | none => simp [read]
  | some date =>
      obtain ⟨year, month, day⟩ := date
      obtain ⟨inWord, inYear, inMonth⟩ := bounds_of_readDate? read
      have days := guardedDayNumber_eq inWord inYear inMonth
      cases timeText with
      | none => simp [read, days]
      | some time =>
          simp only [read, guardedTime_eq, Option.bind_eq_bind, Option.bind_some]
          cases readTime? time <;> simp [days]

end Calendar

namespace Moment

/-- Read a moment, if no step of a date leaves the range of a word. -/
def guardedRead (text : List Char) : Option (Option Moment) :=
  let trimmed := Text.trim text
  if trimmed = "end".toList then some endOfTime
  else if trimmed = "now".toList then some now
  else if trimmed = "beginning".toList then some beginning
  else
    match Text.beforeEnding? "ago".toList trimmed, Number.readSigned 64 trimmed with
    | some distance, _ => some ((Duration.read? distance).map ago)
    | none, some seconds => some (some (absolute (Int64.ofInt seconds)))
    | none, none => do
        let date ← Calendar.guardedSeconds trimmed
        return (date.map absolute).or ((Duration.read? trimmed).map offset)

theorem guardedRead_eq (text : List Char) : guardedRead text = some (read? text) := by
  simp only [guardedRead, read?, Calendar.guardedSeconds_eq]
  split_ifs
  · rfl
  · rfl
  · rfl
  · cases Text.beforeEnding? "ago".toList (Text.trim text) <;>
      cases Number.readSigned 64 (Text.trim text) <;> rfl

end Moment

end Flowgraph
