import Flowgraph.Number.Basic
import Flowgraph.Text.Split

/-!
# Durations

A duration is a number of nanoseconds.  In a program it is written as a number
and a unit, with blanks between them if one likes; it is read to whole
milliseconds.  It is shown in the largest unit, days at most, of which it is a
whole multiple.
-/

namespace Flowgraph

/-- A length of time of less than `2 ^ 64` seconds. -/
structure Duration where
  nanoseconds : Nat
  bounded : nanoseconds < Nat.pow 2 64 * Nat.pow 10 9
deriving DecidableEq, Repr

namespace Duration

/-- The duration of a number of nanoseconds, if it is not too long. -/
def ofNanoseconds? (nanoseconds : Nat) : Option Duration :=
  if bounded : nanoseconds < Nat.pow 2 64 * Nat.pow 10 9 then some ⟨nanoseconds, bounded⟩ else none

/-- The duration of a number of milliseconds. -/
def ofMilliseconds (milliseconds : UInt64) : Duration where
  nanoseconds := milliseconds.toNat * Nat.pow 10 6
  bounded := by
    have small := milliseconds.toNat_lt
    simp only [Nat.pow_eq]
    omega

/-- The number of whole milliseconds. -/
def milliseconds (duration : Duration) : Nat :=
  duration.nanoseconds / Nat.pow 10 6

@[simp]
theorem milliseconds_ofMilliseconds (count : UInt64) :
    (ofMilliseconds count).milliseconds = count.toNat := by
  simp [milliseconds, ofMilliseconds]

/-- Whether the duration has no length. -/
def isZero (duration : Duration) : Bool :=
  duration.nanoseconds == 0

/-! ## Reading -/

/-- The number of milliseconds in a unit.  Months have 30 days and years 365. -/
def unitMilliseconds? (unit : String) : Option Nat :=
  if unit ∈ ["ms", "millisecond", "milliseconds"] then some 1
  else if unit ∈ ["s", "second", "seconds"] then some 1000
  else if unit ∈ ["m", "minute", "minutes"] then some 60000
  else if unit ∈ ["h", "hour", "hours"] then some 3600000
  else if unit ∈ ["d", "day", "days"] then some 86400000
  else if unit ∈ ["w", "week", "weeks"] then some (7 * 86400000)
  else if unit ∈ ["M", "month", "months"] then some (30 * 86400000)
  else if unit ∈ ["y", "year", "years"] then some (365 * 86400000)
  else none

/-- The duration of a finite number, not below zero, of units. -/
def ofUnits? (count : Number.Binary64) (unit : List Char) : Option Duration :=
  if count.isFinite && !count.isBelowZero then
    (unitMilliseconds? (String.ofList unit)).map fun factor =>
      ofMilliseconds (count.scale factor).toWord
  else none

/--
Read a number and a unit.  The unit begins with the first letter, and the blanks
around either do not count.
-/
def read? (text : List Char) : Option Duration :=
  let trimmed := Text.trim text
  let number := trimmed.takeWhile fun c => !c.isAlpha
  let unit := trimmed.drop number.length
  (Number.Binary64.read (Text.trim number)).bind fun count =>
    ofUnits? count (Text.trim unit)

/-! ## Showing -/

/-- The duration in the largest unit of which its whole milliseconds are a multiple. -/
def text (duration : Duration) : String :=
  let milliseconds := duration.milliseconds
  let seconds := milliseconds / 1000
  if milliseconds % 1000 ≠ 0 then toString milliseconds ++ "ms"
  else if seconds ≠ 0 ∧ seconds % 86400 = 0 then toString (seconds / 86400) ++ "d"
  else if seconds ≠ 0 ∧ seconds % 3600 = 0 then toString (seconds / 3600) ++ "h"
  else if seconds ≠ 0 ∧ seconds % 60 = 0 then toString (seconds / 60) ++ "m"
  else toString seconds ++ "s"

end Duration

end Flowgraph
