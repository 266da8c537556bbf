import Flowgraph.Proofs.Time.Guarded
import Mathlib.Order.Monotone.Basic
import Mathlib.Tactic.IntervalCases
import Mathlib.Tactic.NormNum

/-!
# Dates and the days they stand for

A date of the Gregorian calendar has a month of twelve and a day of its month, and its number
of days is told apart from that of every other date (`Date.number_inj`).  For this the days are
counted month by month: a month begins where the month before it ends (`monthStart_succ`).

What is read as a date has a month of twelve, but a day of 31 whatever the month.  The days past
the end of a month are counted on into the next one (`Date.number_carried`), so that a text may
name a day that does not exist and still stand for a moment: that of another date.  Which
texts stand for the same moment is said in full by `accepted_dates`.
-/

namespace Flowgraph.Calendar

/-! ## Months -/

/-- A year with a leap day: one of four, but of the years that end a century again one of four. -/
def IsLeapYear (year : Int) : Prop :=
  year % 4 = 0 ∧ (year % 100 ≠ 0 ∨ year % 400 = 0)

instance (year : Int) : Decidable (IsLeapYear year) :=
  inferInstanceAs (Decidable (_ ∧ _))

/-- The number of days of a month. -/
def monthLength (year : Int) (month : Nat) : Nat :=
  if month = 2 then if IsLeapYear year then 29 else 28
  else if month ∈ [4, 6, 9, 11] then 30
  else 31

theorem monthLength_bounds (year : Int) (month : Nat) :
    28 ≤ monthLength year month ∧ monthLength year month ≤ 31 := by
  simp only [monthLength]
  split_ifs <;> decide

/-- The days of the years before one that begins in March, counted from an arbitrary day. -/
def daysBefore (marchYear : Int) : Int :=
  365 * marchYear + marchYear / 4 - marchYear / 100 + marchYear / 400

/-- The days of the eras and the days of the years of an era, taken together. -/
theorem dayNumber_eq (year : Int) (month day : Nat) :
    dayNumber year month day =
      daysBefore (if month ≤ 2 then year - 1 else year) +
        (153 * (if 2 < month then (month : Int) - 3 else month + 9) + 2) / 5 + day - 719469 := by
  simp only [dayNumber, daysBefore]
  generalize (if month ≤ 2 then year - 1 else year) = marchYear
  omega

/-- The leap day of a year is the last day of the March year before. -/
theorem daysBefore_eq (year : Int) :
    daysBefore year = daysBefore (year - 1) + 337 + monthLength year 2 := by
  by_cases leap : IsLeapYear year
  · have length : monthLength year 2 = 29 := by simp [monthLength, leap]
    rw [length, daysBefore, daysBefore]
    rw [IsLeapYear] at leap
    omega
  · have length : monthLength year 2 = 28 := by simp [monthLength, leap]
    rw [length, daysBefore, daysBefore]
    rw [IsLeapYear] at leap
    omega

/-- A month begins when the days of the month before are over. -/
theorem dayNumber_succ_month (year : Int) {month : Nat} (inYear : 1 ≤ month ∧ month < 12) :
    dayNumber year (month + 1) 1 = dayNumber year month 1 + monthLength year month := by
  obtain ⟨first, last⟩ := inYear
  rw [dayNumber_eq, dayNumber_eq]
  interval_cases month
  -- After February the next March year begins.
  case «2» =>
    have february := daysBefore_eq year
    norm_num
    omega
  all_goals
    norm_num [monthLength]
    omega

/-- A year begins when the days of December are over. -/
theorem dayNumber_succ_year (year : Int) :
    dayNumber (year + 1) 1 1 = dayNumber year 12 1 + monthLength year 12 := by
  rw [dayNumber_eq, dayNumber_eq]
  norm_num [monthLength]
  omega

/-- The days before a month, by the number of months since the first January of the year zero. -/
def monthStart (index : Int) : Int :=
  dayNumber (index / 12) ((index % 12).toNat + 1) 1

theorem monthStart_succ (index : Int) :
    monthStart (index + 1) =
      monthStart index + monthLength (index / 12) ((index % 12).toNat + 1) := by
  rw [monthStart, monthStart]
  rcases Int.lt_or_le (index % 12) 11 with earlier | last
  · have year : (index + 1) / 12 = index / 12 := by omega
    have month : ((index + 1) % 12).toNat = (index % 12).toNat + 1 := by omega
    rw [year, month]
    exact dayNumber_succ_month (index / 12) (by omega)
  · have year : (index + 1) / 12 = index / 12 + 1 := by omega
    have month : (index % 12).toNat = 11 := by omega
    have first : ((index + 1) % 12).toNat = 0 := by omega
    rw [year, month, first]
    exact dayNumber_succ_year (index / 12)

theorem monthStart_le_monthStart {index later : Int} (notAfter : index ≤ later) :
    monthStart index ≤ monthStart later := by
  have ascending : StrictMono monthStart := by
    apply strictMono_int_of_lt_succ
    intro index
    have days := (monthLength_bounds (index / 12) ((index % 12).toNat + 1)).1
    rw [monthStart_succ]
    omega
  exact ascending.monotone notAfter

/-! ## Dates -/

/-- A year, a month and a day, whether the month has such a day or not. -/
@[ext]
structure Date where
  year : Int
  month : Nat
  day : Nat
deriving DecidableEq, Repr

namespace Date

/-- The date is one of the calendar. -/
structure Exists (date : Date) : Prop where
  inYear : 1 ≤ date.month ∧ date.month ≤ 12
  inMonth : 1 ≤ date.day ∧ date.day ≤ monthLength date.year date.month

/-- The number of days from the first of January 1970. -/
def number (date : Date) : Int :=
  dayNumber date.year date.month date.day

/-- The number of months since the first January of the year zero. -/
def monthIndex (date : Date) : Int :=
  12 * date.year + date.month - 1

/-- The date with the days past the end of its month counted on into the next month. -/
def carried (date : Date) : Date :=
  if date.day ≤ monthLength date.year date.month then date
  else if date.month = 12 then
    ⟨date.year + 1, 1, date.day - monthLength date.year date.month⟩
  else ⟨date.year, date.month + 1, date.day - monthLength date.year date.month⟩

variable {date other : Date}

theorem number_eq (date : Date) :
    date.number = dayNumber date.year date.month 1 + date.day - 1 := by
  rw [number, dayNumber_eq, dayNumber_eq]
  omega

theorem number_eq_monthStart (inYear : 1 ≤ date.month ∧ date.month ≤ 12) :
    date.number = monthStart date.monthIndex + date.day - 1 := by
  have year : date.monthIndex / 12 = date.year := by rw [monthIndex]; omega
  have month : (date.monthIndex % 12).toNat + 1 = date.month := by rw [monthIndex]; omega
  rw [number_eq, monthStart, year, month]

/-- A date ends before the month after it begins. -/
theorem Exists.number_lt (isDate : date.Exists) :
    date.number < monthStart (date.monthIndex + 1) := by
  obtain ⟨inYear, first, last⟩ := isDate
  have year : date.monthIndex / 12 = date.year := by rw [monthIndex]; omega
  have month : (date.monthIndex % 12).toNat + 1 = date.month := by rw [monthIndex]; omega
  rw [number_eq_monthStart inYear, monthStart_succ, year, month]
  omega

/-- Dates of earlier months are earlier. -/
theorem Exists.number_lt_of_monthIndex_lt (isDate : date.Exists) (isOther : other.Exists)
    (earlier : date.monthIndex < other.monthIndex) : date.number < other.number :=
  calc
    date.number < monthStart (date.monthIndex + 1) := isDate.number_lt
    _ ≤ monthStart other.monthIndex := monthStart_le_monthStart earlier
    _ ≤ other.number := by
      have first := isOther.inMonth.1
      rw [number_eq_monthStart isOther.inYear]
      omega

/-- A date is known from its number of days. -/
theorem Exists.number_inj (isDate : date.Exists) (isOther : other.Exists)
    (same : date.number = other.number) : date = other := by
  rcases lt_trichotomy date.monthIndex other.monthIndex with earlier | sameMonth | later
  · exact absurd same (isDate.number_lt_of_monthIndex_lt isOther earlier).ne
  · have inYear := isDate.inYear
    have otherInYear := isOther.inYear
    rw [number_eq_monthStart inYear, number_eq_monthStart otherInYear, sameMonth] at same
    rw [monthIndex, monthIndex] at sameMonth
    apply Date.ext <;> omega
  · exact absurd same (isOther.number_lt_of_monthIndex_lt isDate later).ne'

/-- What is counted on into the next month is the same day. -/
theorem number_carried (inYear : 1 ≤ date.month ∧ date.month ≤ 12) :
    date.carried.number = date.number := by
  rw [carried]
  split_ifs with inMonth december
  · rfl
  · have next := dayNumber_succ_year date.year
    rw [number_eq, number_eq, december]
    rw [december] at inMonth
    dsimp only
    omega
  · have beforeDecember : 1 ≤ date.month ∧ date.month < 12 := by omega
    have next := dayNumber_succ_month date.year beforeDecember
    rw [number_eq, number_eq]
    dsimp only
    omega

/-- No month is so short that 31 days reach beyond the next one. -/
theorem exists_carried (inYear : 1 ≤ date.month ∧ date.month ≤ 12)
    (inLongest : 1 ≤ date.day ∧ date.day ≤ 31) : date.carried.Exists := by
  have length := monthLength_bounds date.year date.month
  rw [carried]
  split_ifs with inMonth december
  · exact ⟨inYear, inLongest.1, inMonth⟩
  · have next := monthLength_bounds (date.year + 1) 1
    constructor <;> dsimp only <;> omega
  · have next := monthLength_bounds date.year (date.month + 1)
    constructor <;> dsimp only <;> omega

/-- Only dates that do not exist are carried. -/
theorem carried_eq_self_iff :
    date.carried = date ↔ date.day ≤ monthLength date.year date.month := by
  rw [carried]
  constructor
  · intro same
    by_contra past
    rw [if_neg past] at same
    split_ifs at same with december
    · have year := congrArg Date.year same
      dsimp only at year
      omega
    · have month := congrArg Date.month same
      dsimp only at month
      omega
  · exact fun inMonth => if_pos inMonth

end Date

/-! ## Reading -/

/-- The second of a day at which its time is, or midnight. -/
def readSecond? : Option (List Char) → Option Int
  | some time => readTime? time
  | none => some 0

/-- The date and the second of the day that a text names. -/
def readParts? (text : List Char) : Option (Date × Int) := do
  let body := (Text.beforeEnding? ['Z'] text).getD text
  let (dateText, timeText) := Text.splitAtFirst 'T' body
  let (year, month, day) ← readDate? dateText
  let second ← readSecond? timeText
  return (⟨year, month, day⟩, second)

/-- What is read of a text is what is read of the parts before and after the letter. -/
theorem readParts?_eq_some_iff {text : List Char} {date : Date} {second : Int} :
    readParts? text = some (date, second) ↔
      ∃ dateText timeText,
        Text.splitAtFirst 'T' ((Text.beforeEnding? ['Z'] text).getD text) = (dateText, timeText) ∧
          readDate? dateText = some (date.year, date.month, date.day) ∧
          readSecond? timeText = some second := by
  rw [readParts?]
  obtain ⟨dateText, timeText⟩ := Text.splitAtFirst 'T' ((Text.beforeEnding? ['Z'] text).getD text)
  cases readDate : readDate? dateText with
  | none => simp [readDate]
  | some parts =>
      obtain ⟨year, month, day⟩ := parts
      cases readSecond : readSecond? timeText <;>
        simp [readDate, readSecond, Date.ext_iff, and_assoc]

/-- What a text that names a date and a second has been checked for. -/
structure InRange (date : Date) (second : Int) : Prop where
  inWord : -2 ^ 31 ≤ date.year ∧ date.year < 2 ^ 31
  inYear : 1 ≤ date.month ∧ date.month ≤ 12
  inLongest : 1 ≤ date.day ∧ date.day ≤ 31
  inDay : 0 ≤ second ∧ second < 86400

theorem bounds_of_secondOfDay? {hour minute second number : Int}
    (found : secondOfDay? hour minute second = some number) : 0 ≤ number ∧ number < 86400 := by
  rw [secondOfDay?] at found
  split_ifs at found
  obtain rfl := Option.some.inj found
  omega

theorem bounds_of_readTime? {text : List Char} {second : Int}
    (read : readTime? text = some second) : 0 ≤ second ∧ second < 86400 := by
  rw [readTime?] at read
  split at read
  · simp only [Option.bind_eq_bind, Option.bind_eq_some_iff] at read
    obtain ⟨hour, -, minute, -, found⟩ := read
    exact bounds_of_secondOfDay? found
  · simp only [Option.bind_eq_bind, Option.bind_eq_some_iff] at read
    obtain ⟨hour, -, minute, -, second, -, found⟩ := read
    exact bounds_of_secondOfDay? found
  · cases read

theorem inRange_of_readParts? {text : List Char} {date : Date} {second : Int}
    (read : readParts? text = some (date, second)) : InRange date second := by
  obtain ⟨dateText, timeText, -, readDate, readSecond⟩ := readParts?_eq_some_iff.mp read
  obtain ⟨inWord, inYear, inLongest⟩ := bounds_of_readDate? readDate
  refine ⟨inWord, inYear, inLongest, ?_⟩
  cases timeText with
  | none =>
      obtain rfl := Option.some.inj readSecond
      decide
  | some time => exact bounds_of_readTime? readSecond

/-- The seconds up to a date that was checked fit into a word. -/
theorem InRange.seconds_fit {date : Date} {second : Int} (checked : InRange date second) :
    (-2 ^ 63 ≤ date.number * 86400 ∧ date.number * 86400 < 2 ^ 63) ∧
      -2 ^ 63 ≤ date.number * 86400 + second ∧ date.number * 86400 + second < 2 ^ 63 := by
  obtain ⟨inWord, inYear, inLongest, inDay⟩ := checked
  have number := dayNumber_eq date.year date.month date.day
  rw [← Date.number, daysBefore] at number
  split_ifs at number <;> omega

theorem exactWord?_eq {value : Int} (fits : -2 ^ 63 ≤ value ∧ value < 2 ^ 63) :
    exactWord? value = some (Int64.ofInt value) :=
  if_pos fits

/-- The moment of a text is told by the date and the second that it names, and never fails. -/
theorem readSeconds?_eq (text : List Char) :
    readSeconds? text = (readParts? text).map fun parts =>
      Int64.ofInt (parts.1.number * 86400 + parts.2) := by
  have checks : readSeconds? text = (readParts? text).bind fun parts =>
      (exactWord? (parts.1.number * 86400)).bind fun midnight =>
        exactWord? (midnight.toInt + parts.2) := by
    rw [readSeconds?, readParts?]
    obtain ⟨dateText, timeText⟩ :=
      Text.splitAtFirst 'T' ((Text.beforeEnding? ['Z'] text).getD text)
    cases readDate : readDate? dateText with
    | none => simp [readDate]
    | some date =>
        cases timeText with
        | none => simp [readDate, readSecond?, Date.number]
        | some time =>
            cases readTime : readTime? time <;>
              simp [readDate, readSecond?, readTime, Date.number]
  rw [checks]
  cases read : readParts? text with
  | none => rfl
  | some parts =>
      obtain ⟨midnightFits, fits⟩ := (inRange_of_readParts? read).seconds_fit
      rw [Option.bind_some, exactWord?_eq midnightFits, Option.bind_some,
        Int64.toInt_ofInt_of_le midnightFits.1 midnightFits.2, exactWord?_eq fits, Option.map_some]

/-- Dates and seconds that were checked are told apart by their moments, days by their numbers. -/
theorem InRange.moment_inj {date other : Date} {second otherSecond : Int}
    (checked : InRange date second) (checkedOther : InRange other otherSecond) :
    Int64.ofInt (date.number * 86400 + second) = Int64.ofInt (other.number * 86400 + otherSecond) ↔
      date.number = other.number ∧ second = otherSecond := by
  obtain ⟨-, low, high⟩ := checked.seconds_fit
  obtain ⟨-, lowOther, highOther⟩ := checkedOther.seconds_fit
  obtain ⟨inDay, inDayOther⟩ := And.intro checked.inDay checkedOther.inDay
  rw [← Int64.toInt_inj, Int64.toInt_ofInt_of_le low high,
    Int64.toInt_ofInt_of_le lowOther highOther]
  omega

/-! ## Main result -/

/--
A text that is accepted names a date and a second of a day.  The date exists exactly if its
month has such a day; otherwise the days past the end of the month are counted on into the next.
Two texts stand for the same moment exactly if this leads to the same date, and their
seconds are the same: of texts with dates that exist, only those with the same date.
-/
theorem accepted_dates {text : List Char} {value : Int64}
    (accepted : readSeconds? text = some value) :
    ∃ date second, readParts? text = some (date, second) ∧
      (date.Exists ↔ date.day ≤ monthLength date.year date.month) ∧
      (date.Exists ↔ date.carried = date) ∧ date.carried.Exists ∧
      ∀ other otherValue otherDate otherSecond, readSeconds? other = some otherValue →
        readParts? other = some (otherDate, otherSecond) →
          (otherValue = value ↔ otherDate.carried = date.carried ∧ otherSecond = second) := by
  rw [readSeconds?_eq] at accepted
  obtain ⟨⟨date, second⟩, named, rfl⟩ := Option.map_eq_some_iff.mp accepted
  have checked := inRange_of_readParts? named
  have carriedExists := Date.exists_carried checked.inYear checked.inLongest
  have existsIff : date.Exists ↔ date.day ≤ monthLength date.year date.month :=
    ⟨fun isDate => isDate.inMonth.2,
      fun inMonth => ⟨checked.inYear, checked.inLongest.1, inMonth⟩⟩
  refine ⟨date, second, named, existsIff, existsIff.trans Date.carried_eq_self_iff.symm,
    carriedExists, ?_⟩
  intro other otherValue otherDate otherSecond acceptedOther namedOther
  have checkedOther := inRange_of_readParts? namedOther
  have otherExists := Date.exists_carried checkedOther.inYear checkedOther.inLongest
  rw [readSeconds?_eq, namedOther, Option.map_some] at acceptedOther
  obtain rfl := Option.some.inj acceptedOther
  rw [checkedOther.moment_inj checked, ← Date.number_carried checked.inYear,
    ← Date.number_carried checkedOther.inYear]
  constructor
  · rintro ⟨sameDay, sameSecond⟩
    exact ⟨otherExists.number_inj carriedExists sameDay, sameSecond⟩
  · rintro ⟨sameDate, sameSecond⟩
    exact ⟨by rw [sameDate], sameSecond⟩

/-- The thirtieth of February stands for the second of March at the same time. -/
theorem accepted_dates_pastFebruary :
    readSeconds? "2014-02-30T00:01:30Z".toList = some 1393718490 ∧
      ¬ (⟨2014, 2, 30⟩ : Date).Exists ∧
      readSeconds? "2014-03-02T00:01:30".toList = some 1393718490 := by
  have accepted : readSeconds? "2014-02-30T00:01:30Z".toList = some 1393718490 := by
    decide +kernel
  have named : readParts? "2014-02-30T00:01:30Z".toList = some (⟨2014, 2, 30⟩, 90) := by
    decide +kernel
  have namedOther : readParts? "2014-03-02T00:01:30".toList = some (⟨2014, 3, 2⟩, 90) := by
    decide +kernel
  obtain ⟨date, second, isNamed, existsIff, -, -, sameIff⟩ := accepted_dates accepted
  obtain ⟨rfl, rfl⟩ := Prod.mk.inj (Option.some.inj (isNamed.symm.trans named))
  have acceptedOther := readSeconds?_eq "2014-03-02T00:01:30".toList
  rw [namedOther, Option.map_some] at acceptedOther
  refine ⟨accepted, ?_, ?_⟩
  · rw [existsIff]
    decide
  · rw [acceptedOther, (sameIff _ _ _ _ acceptedOther namedOther).mpr ⟨by decide, rfl⟩]

/--
A date that does not exist is accepted, and stands for the same moment as one that does: any day
up to the thirty-first is taken, whatever the month.
-/
theorem nonexistent_date_accepted :
    ¬ (∀ text date second, (readSeconds? text).isSome = true →
        readParts? text = some (date, second) → date.Exists) ∧
      ¬ (∀ text other date otherDate second, readParts? text = some (date, second) →
        readParts? other = some (otherDate, second) → date ≠ otherDate →
          readSeconds? text ≠ readSeconds? other) := by
  have named : readParts? "2014-02-31".toList = some (⟨2014, 2, 31⟩, 0) := by decide +kernel
  have namedOther : readParts? "2014-03-03".toList = some (⟨2014, 3, 3⟩, 0) := by decide +kernel
  constructor
  · intro all
    have isDate := all _ _ _ (by decide +kernel) named
    exact absurd isDate.inMonth.2 (by decide)
  · intro apart
    exact apart _ _ _ _ _ named namedOther (by decide) (by decide +kernel)

end Flowgraph.Calendar
