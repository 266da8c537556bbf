import Flowgraph.Time.Calendar
import Flowgraph.Time.Duration

/-!
# Moments

A moment bounds the data that a source reads.  It is a fixed point in time, a
distance from the present, or the end of time, which never comes.
-/

namespace Flowgraph

/-- A point in time as a program names it. -/
inductive Moment where
  /-- The end of time; data up to it never ends. -/
  | endOfTime
  | now
  | beginning
  /-- Seconds since the first of January 1970. -/
  | absolute (seconds : Int64)
  | ago (distance : Duration)
  /-- A bare duration, relative to the present. -/
  | offset (distance : Duration)
deriving DecidableEq, Repr

namespace Moment

/--
Read a moment: a name, a duration followed by `ago`, a number of seconds, a
date, or a bare duration, in this order.
-/
def read? (text : List Char) : Option Moment :=
  let trimmed := Text.trim text
  if trimmed = "end".toList then some endOfTime
  else if trimmed = "now".toList then some now
  else if trimmed = "beginning".toList then some beginning
  else
    match Text.beforeEnding? "ago".toList trimmed with
    | some distance => (Duration.read? distance).map ago
    | none =>
        ((Number.readSigned 64 trimmed).map fun seconds => absolute (Int64.ofInt seconds)).or
          (((Calendar.readSeconds? trimmed).map absolute).or
            ((Duration.read? trimmed).map offset))

/-- A moment as it is written in a program. -/
def text : Moment → String
  | endOfTime => ":end:"
  | now => ":now:"
  | beginning => ":beginning:"
  | absolute seconds => ":" ++ toString seconds.toInt ++ ":"
  | ago distance => ":" ++ distance.text ++ " ago:"
  | offset distance => ":" ++ distance.text ++ ":"

end Moment

end Flowgraph
