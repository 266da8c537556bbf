import Flowgraph.Time.Moment

/-!
# Options of operators

The options that say which stretch of time an operator covers, and how it is cut.
They decide whether the data of a source ends.
-/

namespace Flowgraph

/-- Whether the data of a source has an end. -/
inductive UpperBound where
  /-- The end is known: a moment, the present, a trailing stretch or a count. -/
  | fixed
  /-- The data goes on for ever. -/
  | unending
deriving DecidableEq, Repr

/-- The options that concern time and amount. -/
structure OperatorOptions where
  /-- `-from`: where the data begins. -/
  fromMoment : Option Moment := none
  /-- `-to`: where the data ends. -/
  toMoment : Option Moment := none
  /-- `-last`: a stretch of time that ends now. -/
  last : Option Duration := none
  /-- `-every`: the length of a window. -/
  every : Option Duration := none
  /-- `-limit`: the greatest number of points. -/
  limit : Option UInt64 := none
deriving DecidableEq, Repr

namespace OperatorOptions

/-- Data without end is what reaches to the end of time with no count and no trailing stretch. -/
def upperBound (options : OperatorOptions) : UpperBound :=
  if options.limit.isSome || options.last.isSome then .fixed
  else if options.toMoment = some .endOfTime then .unending
  else .fixed

/-- Whether the data is cut into windows. -/
def isWindowed (options : OperatorOptions) : Bool :=
  options.every.isSome

/-- Whether no option is given. -/
def isEmpty (options : OperatorOptions) : Bool :=
  options.fromMoment.isNone && options.toMoment.isNone && options.last.isNone &&
    options.every.isNone && options.limit.isNone

/-- The given options, each with its value, as they are written in a program. -/
def parts (options : OperatorOptions) : List String :=
  [options.fromMoment.map fun moment => "-from " ++ moment.text,
    options.toMoment.map fun moment => "-to " ++ moment.text,
    options.last.map fun duration => "-last :" ++ duration.text ++ ":",
    options.every.map fun duration => "-every :" ++ duration.text ++ ":",
    options.limit.map fun count => "-limit " ++ toString count.toNat].reduceOption

/-- The given options as they are written in a program. -/
def text (options : OperatorOptions) : String :=
  " ".intercalate options.parts

end OperatorOptions

end Flowgraph
