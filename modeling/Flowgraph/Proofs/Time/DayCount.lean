import Flowgraph.Proofs.Time.Calendar
import Mathlib.Logic.Function.Iterate

/-!
# Counting the days

The number of a date counts days: it is zero for the first of January 1970, and the date after
a date has the next number (`Date.Exists.number_next`).  So it tells how many days lie between
the first day and a date, later dates counting up and earlier ones down
(`Date.Exists.daysBetween_epoch_iff`), and it puts the dates of the calendar into their order
(`Date.Exists.number_lt_iff`).

A moment has 86400 seconds for each of these days.  All of this holds for dates of whatever
year; that the words of the program have room for every step is known for years of 32 bits.
-/

namespace Flowgraph.Calendar

namespace Date

/-- The first of January 1970. -/
def epoch : Date :=
  ⟨1970, 1, 1⟩

/-- The date after a date: the next day of the month, or else the first of the next month. -/
def next (date : Date) : Date :=
  if date.day < monthLength date.year date.month then ⟨date.year, date.month, date.day + 1⟩
  else if date.month < 12 then ⟨date.year, date.month + 1, 1⟩
  else ⟨date.year + 1, 1, 1⟩

/-- One date is earlier than another: by its year, in one year by its month, then by its day. -/
def Before (date other : Date) : Prop :=
  date.year < other.year ∨ date.year = other.year ∧
    (date.month < other.month ∨ date.month = other.month ∧ date.day < other.day)

/--
From one date to another it is a number of days: so many dates follow the one up to the other,
or, for a negative number, the other up to the one.
-/
def DaysBetween (date other : Date) (days : Int) : Prop :=
  ∃ steps : Nat, (days = steps ∧ next^[steps] date = other) ∨
    (days = -steps ∧ next^[steps] other = date)

variable {date other : Date}

theorem exists_epoch : epoch.Exists := by
  constructor <;> decide

theorem number_epoch : epoch.number = 0 := by
  decide

/-! ## The next date -/

theorem Exists.next (isDate : date.Exists) : date.next.Exists := by
  obtain ⟨inYear, inMonth⟩ := isDate
  rw [Date.next]
  split_ifs with moreDays moreMonths
  · constructor <;> dsimp only <;> omega
  · have length := monthLength_bounds date.year (date.month + 1)
    constructor <;> dsimp only <;> omega
  · have length := monthLength_bounds (date.year + 1) 1
    constructor <;> dsimp only <;> omega

/-- The date after a date has the next number. -/
theorem Exists.number_next (isDate : date.Exists) : date.next.number = date.number + 1 := by
  obtain ⟨inYear, inMonth⟩ := isDate
  rw [Date.next]
  split_ifs with moreDays moreMonths
  · rw [number_eq, number_eq date]
    dsimp only
    omega
  · -- The month is over, and the next one begins in the same year.
    have nextMonth := dayNumber_succ_month date.year ⟨inYear.1, moreMonths⟩
    rw [number_eq date, number]
    dsimp only
    omega
  · have december : date.month = 12 := by omega
    have nextYear := dayNumber_succ_year date.year
    rw [number_eq date, number]
    rw [december] at inMonth moreDays ⊢
    dsimp only
    omega

/-- So many dates later the number is higher by as many. -/
theorem Exists.iterate_next (isDate : date.Exists) (steps : Nat) :
    (Date.next^[steps] date).Exists ∧
      (Date.next^[steps] date).number = date.number + steps := by
  induction steps with
  | zero => exact ⟨isDate, (Int.add_zero _).symm⟩
  | succ steps ih =>
      obtain ⟨isLater, number⟩ := ih
      rw [Function.iterate_succ_apply']
      refine ⟨isLater.next, ?_⟩
      rw [isLater.number_next, number]
      omega

/-- The number of days between two dates is the difference of their numbers. -/
theorem Exists.daysBetween_iff (isDate : date.Exists) (isOther : other.Exists) (days : Int) :
    date.DaysBetween other days ↔ other.number - date.number = days := by
  constructor
  · rintro ⟨steps, ⟨rfl, rfl⟩ | ⟨rfl, rfl⟩⟩
    · have number := (isDate.iterate_next steps).2
      omega
    · have number := (isOther.iterate_next steps).2
      omega
  · intro difference
    rcases Int.le_total 0 days with later | earlier
    · obtain ⟨isReached, number⟩ := isDate.iterate_next days.toNat
      refine ⟨days.toNat, .inl ⟨by omega, isReached.number_inj isOther ?_⟩⟩
      omega
    · obtain ⟨isReached, number⟩ := isOther.iterate_next (-days).toNat
      refine ⟨(-days).toNat, .inr ⟨by omega, isReached.number_inj isDate ?_⟩⟩
      omega

/-- The number of a date is the number of days from the first of January 1970. -/
theorem Exists.daysBetween_epoch_iff (isDate : date.Exists) (days : Int) :
    epoch.DaysBetween date days ↔ date.number = days := by
  rw [exists_epoch.daysBetween_iff isDate, number_epoch, Int.sub_zero]

/-! ## The order of dates -/

/-- Earlier dates have smaller numbers. -/
theorem Exists.number_lt_of_before (isDate : date.Exists) (isOther : other.Exists)
    (before : date.Before other) : date.number < other.number := by
  obtain ⟨inYear, inYearOther⟩ := And.intro isDate.inYear isOther.inYear
  rcases before with year | ⟨year, month | ⟨month, day⟩⟩
  · refine isDate.number_lt_of_monthIndex_lt isOther ?_
    rw [monthIndex, monthIndex]
    omega
  · refine isDate.number_lt_of_monthIndex_lt isOther ?_
    rw [monthIndex, monthIndex]
    omega
  · rw [number_eq, number_eq other, year, month]
    omega

/-- Two different dates come one before the other. -/
theorem before_trichotomy (date other : Date) :
    date.Before other ∨ date = other ∨ other.Before date := by
  rw [Before, Before, Date.ext_iff]
  omega

/-- The numbers of dates are in the order of the dates. -/
theorem Exists.number_lt_iff (isDate : date.Exists) (isOther : other.Exists) :
    date.number < other.number ↔ date.Before other := by
  constructor
  · intro less
    rcases before_trichotomy date other with before | rfl | after
    · exact before
    · exact absurd less (lt_irrefl _)
    · exact absurd (isOther.number_lt_of_before isDate after) less.asymm
  · exact isDate.number_lt_of_before isOther

/-- Between a date and the next one there is no other. -/
theorem Exists.before_iff_next (isDate : date.Exists) (isOther : other.Exists) :
    date.Before other ↔ date.next = other ∨ date.next.Before other := by
  rw [← isDate.number_lt_iff isOther, ← isDate.next.number_lt_iff isOther]
  have number := isDate.number_next
  constructor
  · intro less
    rcases Int.lt_or_eq_of_le (Int.add_one_le_of_lt less) with later | same
    · exact .inr (by omega)
    · exact .inl (isDate.next.number_inj isOther (number.trans same))
  · rintro (rfl | less) <;> omega

end Date

/-! ## Seconds -/

/-- A moment is computed in words without a failure, and has 86400 seconds for each day. -/
structure CountsSeconds (date : Date) (second : Int) : Prop where
  /-- No step to the number of days leaves the range of a word. -/
  days : guardedDayNumber date.year date.month date.day = some date.number
  /-- Neither the product nor the sum is refused. -/
  seconds : ∃ midnight moment, exactWord? (date.number * 86400) = some midnight ∧
    exactWord? (midnight.toInt + second) = some moment ∧
    moment.toInt = 86400 * date.number + second

theorem InRange.countsSeconds {date : Date} {second : Int} (checked : InRange date second) :
    CountsSeconds date second := by
  obtain ⟨midnightFits, fits⟩ := checked.seconds_fit
  refine ⟨guardedDayNumber_eq checked.inWord checked.inYear checked.inLongest,
    Int64.ofInt (date.number * 86400), Int64.ofInt (date.number * 86400 + second),
    exactWord?_eq midnightFits, ?_, ?_⟩
  · rw [Int64.toInt_ofInt_of_le midnightFits.1 midnightFits.2, exactWord?_eq fits]
  · rw [Int64.toInt_ofInt_of_le fits.1 fits.2, Int.mul_comm]

/-- The moment of a text is counted from the date and the second that the text names. -/
theorem toInt_readSeconds? (text : List Char) :
    (readSeconds? text).map Int64.toInt =
      (readParts? text).map fun (date, second) => 86400 * date.number + second := by
  rw [readSeconds?_eq, Option.map_map]
  refine Option.map_congr fun ⟨date, second⟩ named => ?_
  obtain ⟨-, low, high⟩ := (inRange_of_readParts? named).seconds_fit
  rw [Function.comp_apply, Int64.toInt_ofInt_of_le low high, Int.mul_comm]

/-! ## Main result -/

/--
The number of a date of the calendar is the number of days from the first of January 1970, and
smaller for earlier dates: this first day has the number zero, and the next date after a date
has the next number.  The seconds of a date are computed without a failure for every year
of 32 bits, and a text is read as 86400 seconds for each day and the seconds of the last day.
-/
theorem dayNumber_counts_days :
    Date.epoch.number = 0 ∧
      (∀ date : Date, date.Exists →
        date.next.Exists ∧ date.next.number = date.number + 1 ∧
        (∀ days, Date.epoch.DaysBetween date days ↔ date.number = days) ∧
        ∀ other : Date, other.Exists →
          (date.Before other ↔ date.next = other ∨ date.next.Before other) ∧
          (date.number < other.number ↔ date.Before other)) ∧
      (∀ date second, InRange date second → CountsSeconds date second) ∧
      ∀ text, (∀ date second, readParts? text = some (date, second) → InRange date second) ∧
        (readSeconds? text).map Int64.toInt =
          (readParts? text).map fun (date, second) => 86400 * date.number + second := by
  refine ⟨Date.number_epoch, ?_, fun _ _ => InRange.countsSeconds, ?_⟩
  · intro date isDate
    exact ⟨isDate.next, isDate.number_next, isDate.daysBetween_epoch_iff,
      fun other isOther => ⟨isDate.before_iff_next isOther, isDate.number_lt_iff isOther⟩⟩
  · exact fun text => ⟨fun _ _ => inRange_of_readParts?, toInt_readSeconds? text⟩

/-- The last day of the year zero, a leap year, and the day after it. -/
theorem dayNumber_counts_days_yearZero :
    (⟨0, 12, 31⟩ : Date).Exists ∧ (⟨0, 12, 31⟩ : Date).next = ⟨1, 1, 1⟩ ∧
      Date.epoch.DaysBetween ⟨0, 12, 31⟩ (-719163) ∧ (⟨1, 1, 1⟩ : Date).number = -719162 ∧
      InRange ⟨-2147483648, 1, 1⟩ 86399 ∧ CountsSeconds ⟨-2147483648, 1, 1⟩ 86399 := by
  obtain ⟨-, dates, seconds, -⟩ := dayNumber_counts_days
  have isDate : (⟨0, 12, 31⟩ : Date).Exists := by constructor <;> decide
  have checked : InRange ⟨-2147483648, 1, 1⟩ 86399 := by constructor <;> decide
  have next : (⟨0, 12, 31⟩ : Date).next = ⟨1, 1, 1⟩ := by decide
  obtain ⟨-, number, days, -⟩ := dates _ isDate
  have counted : (⟨0, 12, 31⟩ : Date).number = -719163 := by decide
  refine ⟨isDate, next, (days _).mpr counted, ?_, checked, seconds _ _ checked⟩
  rw [← next, number, counted]
  rfl

end Flowgraph.Calendar
