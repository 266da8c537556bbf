import Flowgraph.Source

/-!
# Temporal classes

The data on its way through a flowgraph is bounded, or live and cut into
windows, or live without end.  Live data remembers the source it comes from, so
that an error far downstream can name its cause.  Where several inputs meet the
most dangerous class counts, and of equally dangerous ones the first.
-/

namespace Flowgraph

/-- How data behaves in time; live data carries the location of its source. -/
inductive TemporalClass where
  /-- The data ends. -/
  | bounded
  /-- The data goes on for ever, but each of its windows ends. -/
  | liveWindowed (provenance : Location)
  /-- The data goes on for ever. -/
  | liveUnbounded (provenance : Location)
deriving DecidableEq, Repr, Inhabited

namespace TemporalClass

/-- How dangerous a class is. -/
def rank : TemporalClass → Nat
  | bounded => 0
  | liveWindowed _ => 1
  | liveUnbounded _ => 2

/-- The location of the source that live data comes from. -/
def provenance? : TemporalClass → Option Location
  | bounded => none
  | liveWindowed location => some location
  | liveUnbounded location => some location

/-- Whether the data goes on for ever without windows. -/
def isUnbounded : TemporalClass → Bool
  | liveUnbounded _ => true
  | _ => false

/-- The more dangerous of two classes; the first if both are alike. -/
def join (first second : TemporalClass) : TemporalClass :=
  if first.rank < second.rank then second else first

/-- The class of data that arrives from several inputs; without inputs there is no live data. -/
def combine : List TemporalClass → TemporalClass
  | [] => bounded
  | first :: others => others.foldl join first

/-- The name of a class. -/
def label : TemporalClass → String
  | bounded => "bounded"
  | liveWindowed _ => "live-windowed"
  | liveUnbounded _ => "live-unbounded"

/-- A class as it is shown, with the source of live data. -/
def text (value : TemporalClass) : String :=
  match value.provenance? with
  | some location => value.label ++ " (from " ++ location.text ++ ")"
  | none => value.label

/-- The record of a class. -/
def record (value : TemporalClass) : Text.Json :=
  match value.provenance? with
  | some location =>
      .object [("class", .text value.label), ("provenance", location.record)]
  | none => .object [("class", .text value.label)]

end TemporalClass

end Flowgraph
