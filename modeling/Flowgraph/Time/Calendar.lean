import Flowgraph.Number.Basic
import Flowgraph.Text.Split

/-!
# Dates of the Gregorian calendar

A date is written `YYYY-MM-DD`.  A time of the day, `THH:MM` or `THH:MM:SS`, and
a trailing `Z` may follow it.  It stands for the number of seconds since the
first of January 1970.
-/

namespace Flowgraph.Calendar

/--
The number of days from the first of January 1970 to a date of the Gregorian
calendar, which is carried on before its introduction.

Years are taken to begin in March, so that the leap day comes last.  An era is a
cycle of 400 such years and has 146097 days.
-/
def dayNumber (year : Int) (month day : Nat) : Int :=
  let marchYear := if month ≤ 2 then year - 1 else year
  let era := marchYear / 400
  let yearOfEra := marchYear - era * 400
  let marchMonth : Int := if 2 < month then month - 3 else month + 9
  let dayOfYear := (153 * marchMonth + 2) / 5 + day - 1
  let dayOfEra := yearOfEra * 365 + yearOfEra / 4 - yearOfEra / 100 + dayOfYear
  era * 146097 + dayOfEra - 719468

/-- An integer that fits into a signed word of 64 bits. -/
def exactWord? (value : Int) : Option Int64 :=
  if -Int.pow 2 63 ≤ value ∧ value < Int.pow 2 63 then some (Int64.ofInt value) else none

/-- The year, the month and the day of a date. -/
def readDate? (text : List Char) : Option (Int × Nat × Nat) :=
  match Text.splitAtEach '-' text with
  | [yearText, monthText, dayText] => do
      let year ← Number.readSigned 32 yearText
      let month ← Number.readUnsigned 32 monthText
      let day ← Number.readUnsigned 32 dayText
      if 1 ≤ month ∧ month ≤ 12 ∧ 1 ≤ day ∧ day ≤ 31 then some (year, month, day) else none
  | _ => none

/-- The seconds from midnight to an hour, a minute and a second, if the day has them. -/
def secondOfDay? (hour minute second : Int) : Option Int :=
  if (0 ≤ hour ∧ hour < 24) ∧ (0 ≤ minute ∧ minute < 60) ∧ (0 ≤ second ∧ second < 60) then
    some (hour * 3600 + minute * 60 + second)
  else none

/-- The seconds from midnight to a time of the day. -/
def readTime? (text : List Char) : Option Int :=
  match Text.splitAtEach ':' text with
  | [hourText, minuteText] => do
      secondOfDay? (← Number.readSigned 64 hourText) (← Number.readSigned 64 minuteText) 0
  | [hourText, minuteText, secondText] => do
      secondOfDay? (← Number.readSigned 64 hourText) (← Number.readSigned 64 minuteText)
        (← Number.readSigned 64 secondText)
  | _ => none

/-- The seconds since 1970 of a date, with a time of the day or at midnight. -/
def readSeconds? (text : List Char) : Option Int64 := do
  let body := (Text.beforeEnding? ['Z'] text).getD text
  let (dateText, timeText) := Text.splitAtFirst 'T' body
  let (year, month, day) ← readDate? dateText
  let second ← match timeText with
    | some time => readTime? time
    | none => some 0
  let midnight ← exactWord? (dayNumber year month day * 86400)
  exactWord? (midnight.toInt + second)

end Flowgraph.Calendar
