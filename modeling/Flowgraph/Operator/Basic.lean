import Flowgraph.Operator.Options
import Flowgraph.TemporalClass

/-!
# Operators

An operator is what a proc call means: a kind, and options with typed values.

The kind of an operator fixes two things: what it makes of the class of the data
it receives, and whether it has to see the end of that data before it can give
out anything.
-/

namespace Flowgraph

/-- What an operator does, as far as the flow of data in time is concerned. -/
inductive OperatorKind where
  | source
  /-- Cuts the data into windows. -/
  | windowedAggregate
  /-- Gives out a result every period, without cutting the data. -/
  | periodicAggregate
  /-- Gives out a result at the end. -/
  | aggregate
  | sort
  | tail
  | head
  /-- Removes the bounds of windows. -/
  | unbatch
  | passThrough
  | merge
  | sink
deriving DecidableEq, Repr

/-- What an operator makes of the class of the data it receives. -/
inductive Transform where
  /-- The operator's own options decide, whatever it receives. -/
  | origin
  /-- Live data is cut into windows. -/
  | window
  /-- Live data in windows goes on without them. -/
  | unwindow
  /-- The class stays as it is. -/
  | preserve
deriving DecidableEq, Repr

/-- Whether an operator has to see the end of the data it receives. -/
inductive Requirement where
  /-- The end must come, if only at the end of each window. -/
  | requiresBounded
  | noRequirement
deriving DecidableEq, Repr

namespace Transform

/-- The class that an operator gives out, by its options, its place and what it receives. -/
def apply (transform : Transform) (input : TemporalClass) (options : OperatorOptions)
    (location : Location) : TemporalClass :=
  match transform with
  | origin =>
      match options.upperBound, options.isWindowed with
      | .fixed, _ => .bounded
      | .unending, true => .liveWindowed location
      | .unending, false => .liveUnbounded location
  | window =>
      match input with
      | .bounded => .bounded
      | .liveWindowed provenance => .liveWindowed provenance
      | .liveUnbounded provenance => .liveWindowed provenance
  | unwindow =>
      match input with
      | .liveWindowed provenance => .liveUnbounded provenance
      | other => other
  | preserve => input

end Transform

/-- Whether data of a class meets a requirement. -/
def Requirement.admits (requirement : Requirement) (input : TemporalClass) : Bool :=
  match requirement with
  | requiresBounded => !input.isUnbounded
  | noRequirement => true

namespace OperatorKind

/-- The name of a kind. -/
def name : OperatorKind → String
  | source => "source"
  | windowedAggregate => "windowed-aggregate"
  | periodicAggregate => "periodic-aggregate"
  | aggregate => "aggregate"
  | sort => "sort"
  | tail => "tail"
  | head => "head"
  | unbatch => "unbatch"
  | passThrough => "pass-through"
  | merge => "merge"
  | sink => "sink"

/-- Whether operators of the kind bring data into a flowgraph. -/
def isSource (kind : OperatorKind) : Bool :=
  kind == source

/-- What operators of a kind make of the class of their data. -/
def transform : OperatorKind → Transform
  | source => .origin
  | windowedAggregate => .window
  | unbatch => .unwindow
  | periodicAggregate | aggregate | sort | tail | head | passThrough | merge | sink => .preserve

/-- Whether operators of a kind have to see the end of their data. -/
def requirement : OperatorKind → Requirement
  | aggregate | sort | tail => .requiresBounded
  | source | windowedAggregate | periodicAggregate | head | unbatch | passThrough | merge | sink =>
      .noRequirement

end OperatorKind

/-- An occurrence of a proc in a program. -/
structure Operator where
  /-- The name of the proc. -/
  name : String
  kind : OperatorKind
  options : OperatorOptions
  /-- The bytes of the call and of the blanks and comments that follow it. -/
  span : Span
deriving DecidableEq, Repr

end Flowgraph
