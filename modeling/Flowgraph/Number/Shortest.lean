import Flowgraph.Number.Basic

/-!
# The shortest decimal form of a number

A finite number is written with the fewest decimal digits that read back as the
same number.  Of the decimals with that many digits the one nearest to the
number is taken, and of two nearest the larger.

The decimals that read back as a number form an interval around it.  It reaches
half way to each neighbouring number, and its ends belong to it exactly when the
significand is even, since a half is rounded to the even neighbour.
-/

namespace Flowgraph.Number

/-- The decimal `0.d₁d₂… · 10 ^ point`, where `d₁d₂…` are its digits. -/
structure Decimal where
  digits : List Char
  point : Int
deriving DecidableEq, Repr

namespace Decimal

/-- Zero written with a single digit. -/
def zero : Decimal := ⟨['0'], 1⟩

/-- The digits without the zeros at their end. -/
def dropTrailingZeros (digits : List Char) : List Char :=
  (digits.reverse.dropWhile (· == '0')).reverse

/--
Written without an exponent: with a point where the decimal has a fractional
part, with `wholeSuffix` in its place where it has none.
-/
def positional (wholeSuffix : List Char) (decimal : Decimal) : List Char :=
  let count : Int := decimal.digits.length
  if decimal.point ≤ 0 then
    ['0', '.'] ++ List.replicate (-decimal.point).toNat '0' ++ decimal.digits
  else if count ≤ decimal.point then
    decimal.digits ++ List.replicate (decimal.point - count).toNat '0' ++ wholeSuffix
  else
    let whole := decimal.point.toNat
    decimal.digits.take whole ++ ['.'] ++ decimal.digits.drop whole

/-- Written with one digit before the point and a power of ten. -/
def scientific (decimal : Decimal) : List Char :=
  let mantissa := match decimal.digits with
    | [] => ['0']
    | [digit] => [digit]
    | digit :: rest => digit :: '.' :: rest
  mantissa ++ ['e'] ++ (toString (decimal.point - 1)).toList

end Decimal

namespace Binary64

/--
A power of ten so large that every positive number times it has more than
seventeen digits before its point.
-/
def decimalShift : Nat := 350

/--
The decimal with `count` digits nearest to the number, if one of that many
digits reads back.  The number is `units * 10 ^ decimalShift` over `unitsPerOne`,
written with `length` digits before its point.
-/
def decimalOfLength? (units length count : Nat) : Option Decimal :=
  let value := units * Nat.pow 10 decimalShift
  let grid := Nat.pow 10 (length - count) * unitsPerOne
  let below := value / grid
  let step := spacing units
  let even := (units / step) % 2 == 0
  let lowerGap := if 1 < step ∧ units = Nat.pow 2 52 * step then step else 2 * step
  let lowest := (4 * units - lowerGap) * Nat.pow 10 decimalShift
  let highest := (4 * units + 2 * step) * Nat.pow 10 decimalShift
  let readsBack (multiple : Nat) : Bool :=
    let point := 4 * (multiple * grid)
    if even then lowest ≤ point && point ≤ highest else lowest < point && point < highest
  let remainder := value - below * grid
  let nearest := if 2 * remainder < grid then below else below + 1
  let candidates :=
    if nearest = below then [below, below + 1] else [below + 1, below]
  (candidates.find? readsBack).map fun multiple =>
    let digits := Nat.toDigits 10 multiple
    ⟨Decimal.dropTrailingZeros digits,
      (digits.length : Int) + (length - count : Nat) - (decimalShift : Int)⟩

/-- The shortest decimal that reads back as the magnitude of `units`. -/
def shortestDecimal (units : Nat) : Decimal :=
  if units = 0 then Decimal.zero
  else
    let length := (Nat.toDigits 10 (units * Nat.pow 10 decimalShift / unitsPerOne)).length
    ((List.range 17).findSome? fun index => decimalOfLength? units length (index + 1)).getD
      Decimal.zero

/-- A minus sign before a negative number, and nothing before any other. -/
def signed (negative : Bool) (magnitude : List Char) : String :=
  String.ofList (if negative then '-' :: magnitude else magnitude)

/-- The text of a number in a program: never with an exponent, whole numbers without a point. -/
def plainText : Binary64 → String
  | finite negative units => signed negative ((shortestDecimal units).positional [])
  | infinite negative => signed negative ['i', 'n', 'f']

/--
The text of a number in an outline: whole numbers end in `.0`, and an exponent
is used from `1e16` on and below `1e-4`.
-/
def outlineText : Binary64 → String
  | finite negative units =>
      let decimal := shortestDecimal units
      signed negative
        (if 16 < decimal.point ∨ decimal.point < -3 then decimal.scientific
          else decimal.positional ['.', '0'])
  | infinite negative => signed negative ['i', 'n', 'f']

end Binary64

end Flowgraph.Number
