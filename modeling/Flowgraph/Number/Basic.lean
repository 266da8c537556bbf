/-!
# Numbers that are read

An integer is written in decimal digits with an optional sign.  It is refused
when it has no digits, when any other character stands in it, or when it does
not fit into the given number of bits.

A number literal denotes the nearest number of the binary interchange format
with 64 bits.  Its magnitude is counted in units of the least positive number,
`2 ^ -1074`, so that a finite magnitude is a natural number and two finite
numbers are equal exactly when their signs and units are.  A magnitude has at
most 53 significant bits; one that would need more is rounded to the nearest
that has, and of two nearest the one with the even significand is taken.  There
is no not-a-number, since reading and scaling never produce one.
-/

namespace Flowgraph.Number

/-! ## Bounded integers -/

/-- The value of a decimal digit. -/
def digitValue (c : Char) : Nat :=
  c.toNat - '0'.toNat

/-- The number that a row of decimal digits denotes. -/
def ofDigits (digits : List Char) : Nat :=
  digits.foldl (fun value digit => 10 * value + digitValue digit) 0

/-- A natural number: one or more decimal digits. -/
def readNatural (text : List Char) : Option Nat :=
  if text ≠ [] ∧ text.all Char.isDigit then some (ofDigits text) else none

/-- A natural number below `2 ^ bits`; a plus sign may precede it. -/
def readUnsigned (bits : Nat) (text : List Char) : Option Nat :=
  let digits := match text with
    | '+' :: rest => rest
    | _ => text
  (readNatural digits).filter (· < Nat.pow 2 bits)

/-- An integer from `-2 ^ (bits - 1)` to below `2 ^ (bits - 1)`; a sign may precede it. -/
def readSigned (bits : Nat) (text : List Char) : Option Int :=
  let value : Option Int := match text with
    | '+' :: rest => (readNatural rest).map Int.ofNat
    | '-' :: rest => (readNatural rest).map fun magnitude => -(magnitude : Int)
    | _ => (readNatural text).map Int.ofNat
  value.filter fun number => -Int.pow 2 (bits - 1) ≤ number ∧ number < Int.pow 2 (bits - 1)

/-! ## Floating-point numbers of 64 bits -/

/-- A number of the format: a finite multiple of the least positive number, or an infinity. -/
inductive Binary64 where
  | finite (negative : Bool) (units : Nat)
  | infinite (negative : Bool)
deriving DecidableEq, Repr

/-- The number of binary digits of a natural number; zero has none. -/
def bitLength (number : Nat) : Nat :=
  if number = 0 then 0 else number.log2 + 1

/-- The quotient rounded to the nearest natural number, a half to the even neighbour. -/
def roundHalfEven (numerator denominator : Nat) : Nat :=
  let quotient := numerator / denominator
  let twice := 2 * (numerator % denominator)
  if twice < denominator then quotient
  else if denominator < twice then quotient + 1
  else quotient + quotient % 2

namespace Binary64

/-- The number of units in the value one. -/
def unitsPerOne : Nat := Nat.pow 2 1074

/-- The least number of units that is no longer finite. -/
def unitsLimit : Nat := Nat.pow 2 2098

/--
The distance between neighbouring magnitudes around `units`: such that no more
than 53 significant bits are left.
-/
def spacing (units : Nat) : Nat :=
  Nat.pow 2 (bitLength units - 53)

/-- The magnitude nearest to a quotient of units. -/
def roundUnits (negative : Bool) (numerator denominator : Nat) : Binary64 :=
  let step := spacing (numerator / denominator)
  let units := roundHalfEven numerator (denominator * step) * step
  if units < unitsLimit then finite negative units else infinite negative

/-- The number nearest to `coefficient / 10 ^ places`. -/
def ofDecimal (negative : Bool) (coefficient places : Nat) : Binary64 :=
  roundUnits negative (coefficient * unitsPerOne) (Nat.pow 10 places)

/-- The number nearest to the product with a natural number. -/
def scale (value : Binary64) (factor : Nat) : Binary64 :=
  match value with
  | finite negative units => roundUnits negative (units * factor) 1
  | infinite negative => infinite negative

/-- Whether the number is finite. -/
def isFinite : Binary64 → Bool
  | finite _ _ => true
  | infinite _ => false

/-- Whether the number is below zero; negative zero is not. -/
def isBelowZero : Binary64 → Bool
  | finite negative units => negative && units != 0
  | infinite negative => negative

/-- Whether the number is finite and has no fractional part. -/
def isWhole : Binary64 → Bool
  | finite _ units => units % unitsPerOne == 0
  | infinite _ => false

/--
The nearest natural number of 64 bits: a half goes away from zero, a number
below zero gives zero, and one above the range gives the largest.
-/
def toWord (value : Binary64) : UInt64 :=
  match value with
  | finite negative units =>
      let rounded := (2 * units + unitsPerOne) / (2 * unitsPerOne)
      if negative then 0 else UInt64.ofNat (min rounded (UInt64.size - 1))
  | infinite negative => if negative then 0 else UInt64.ofNat (UInt64.size - 1)

/--
Read decimal digits with an optional sign, and an optional point with digits
before it, after it or both.
-/
def read (text : List Char) : Option Binary64 :=
  let (negative, magnitude) := match text with
    | '-' :: rest => (true, rest)
    | '+' :: rest => (false, rest)
    | _ => (false, text)
  let whole := magnitude.takeWhile Char.isDigit
  let fraction : Option (List Char) := match magnitude.dropWhile Char.isDigit with
    | [] => some []
    | '.' :: rest => if rest.all Char.isDigit then some rest else none
    | _ => none
  match fraction with
  | some places =>
      if whole = [] ∧ places = [] then none
      else some (ofDecimal negative (ofDigits (whole ++ places)) places.length)
  | none => none

end Binary64

end Flowgraph.Number
