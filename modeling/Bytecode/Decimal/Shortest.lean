import Bytecode.FloatFormat

/-!
# Shortest decimals

A finite floating-point number is the nearest one to many decimals. Among these the shortest is
written: the one with the fewest digits, and of several the nearest to the number. If two are
equally near, it is the greater.

The decimals with `n` digits are a grid around the number, and if any point of the grid rounds to
the number, then one of the two neighbours of the number does. So the grids are tried by
increasing `n`, and on each only two points. The number is `m · 2 ^ q`, and all comparisons are
between natural numbers.

## Main definitions

* `Decimal`: a number `digits · 10 ^ exponent`
* `Decimal.Magnitude`: a positive number `m · 2 ^ q` with the gap below it
* `Decimal.shortest`: the shortest decimal
* `Decimal.ofBits`: the shortest decimal of the bits of a positive number
-/

namespace Bytecode

/-- **A decimal** `digits · 10 ^ exponent`. -/
structure Decimal where
  digits : Nat
  -- the power of ten of the last digit
  exponent : Int
  deriving DecidableEq

namespace Decimal

/-- **A positive number** `m · 2 ^ q` among its neighbours, of which the next greater one is
`2 ^ q` away. -/
structure Magnitude where
  significand : Nat
  scale : Int
  -- the next smaller number is only half as far away as the next greater one
  narrowBelow : Bool

namespace Magnitude

variable (x : Magnitude)

/-- The numerator and the denominator of the number. -/
def ratio : Nat × Nat :=
  (x.significand * Nat.pow 2 x.scale.toNat, Nat.pow 2 (-x.scale).toNat)

/-- The power of ten of the leading digit. -/
def leadingExponent : Int :=
  let (num, den) := x.ratio
  if den ≤ num then (Nat.toDigits 10 (num / den)).length - 1
  else
    -- The number is above `10 ^ (-places)` and at most `10 ^ (1 - places)`, which only a power of
    -- ten reaches.
    let places := (Nat.toDigits 10 (den / num)).length
    if den ≤ num * Nat.pow 10 (places - 1) then -((places - 1 : Nat) : Int) else -(places : Int)

/-- Four times the number, in units of `2 ^ (q - 2)`, where both ends of the interval that rounds
to the number are whole. -/
def quarter : Nat := 4 * x.significand

/-- The lower end of the interval that rounds to the number. -/
def lowerEnd : Nat := x.quarter - if x.narrowBelow then 1 else 2

/-- The upper end of the interval that rounds to the number. -/
def upperEnd : Nat := x.quarter + 2

/-- The ends round to the number too: ties go to the even factor. -/
def includesEnds : Bool := x.significand % 2 == 0

/-- The factors `(a, b)` for which a point `c` of the grid `10 ^ k` compares with `t` units of
`2 ^ (q - 2)` as `c · a` with `t · b`. -/
def gridFactors (k : Int) : Nat × Nat :=
  (Nat.pow 10 k.toNat * Nat.pow 2 (2 - x.scale).toNat,
    Nat.pow 10 (-k).toNat * Nat.pow 2 (x.scale - 2).toNat)

/-- A point of the grid `10 ^ k` rounds to the number. -/
def accepts (k : Int) (point : Nat) : Bool :=
  let (a, b) := x.gridFactors k
  if x.includesEnds then x.lowerEnd * b ≤ point * a && point * a ≤ x.upperEnd * b
  else x.lowerEnd * b < point * a && point * a < x.upperEnd * b

/-- The nearest point of the grid `10 ^ k` that rounds to the number, the upper of two that are
equally near. -/
def onGrid? (k : Int) : Option Nat :=
  let (a, b) := x.gridFactors k
  -- the two points of the grid that enclose the number
  let below := x.quarter * b / a
  let above := below + 1
  match x.accepts k below, x.accepts k above with
  | false, false => none
  | true, false => some below
  | false, true => some above
  | true, true =>
    if x.quarter * b - below * a < above * a - x.quarter * b then some below else some above

end Magnitude

/-- Moves the zeros at the end of the digits into the exponent; `limit` bounds their number. -/
def dropZeros : (limit : Nat) → Decimal → Decimal
  | 0, d => d
  | limit + 1, d =>
    if d.digits % 10 = 0 then dropZeros limit ⟨d.digits / 10, d.exponent + 1⟩ else d

/-- **The shortest decimal** that rounds to a number: on the coarsest grid with a point that does.
With `maxDigits` digits there has to be one. -/
def shortest (maxDigits : Nat) (x : Magnitude) : Decimal :=
  let found := (List.range maxDigits).findSome? fun (further : Nat) =>
    let exponent := x.leadingExponent - further
    (x.onGrid? exponent).map fun point => Decimal.mk point exponent
  match found with
  | some d => dropZeros maxDigits d
  | none => ⟨x.significand, 0⟩

/-- The shortest decimal of the magnitude of a finite number that is not zero. -/
def ofBits (format : FloatFormat) (bits : Nat) : Decimal :=
  shortest (format.fractionBits + 1)
    ⟨format.significand bits, format.scale bits, format.hasNarrowGapBelow bits⟩

end Decimal

end Bytecode
