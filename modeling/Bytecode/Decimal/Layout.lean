import Bytecode.Decimal.Shortest

/-!
# Writing numbers with a point

A decimal is written positionally if its leading digit lies in a range of powers of ten, and
otherwise with an exponent. The range is a choice of the text the number stands in.

## Main definitions

* `Decimal.Layout`: the range
* `Decimal.write`: a decimal in a layout
* `FloatFormat.write`: the shortest text of the bits of a number
-/

namespace Bytecode

namespace Decimal

/-- **How decimals are written**. -/
structure Layout where
  -- the least power of ten of a leading digit that is written positionally
  positionalFrom : Int
  -- the least power of ten above them that is written with an exponent
  positionalBelow : Int

/-- A decimal without exponent; a whole number has one zero after the point. -/
def writePositional (d : Decimal) : List Char :=
  let digits := Nat.toDigits 10 d.digits
  let places := (-d.exponent).toNat
  if 0 ≤ d.exponent then digits ++ List.replicate d.exponent.toNat '0' ++ ['.', '0']
  else if places < digits.length then
    digits.take (digits.length - places) ++ '.' :: digits.drop (digits.length - places)
  else ['0', '.'] ++ List.replicate (places - digits.length) '0' ++ digits

/-- A decimal with an exponent; a point stands only between digits. -/
def writeScientific (leading : Int) (d : Decimal) : List Char :=
  let exponent := 'e' :: (toString leading).toList
  match Nat.toDigits 10 d.digits with
  | first :: second :: rest => first :: '.' :: second :: rest ++ exponent
  | digits => digits ++ exponent

/-- **A decimal in a layout**. -/
def write (layout : Layout) (d : Decimal) : String :=
  let leading := d.exponent + (Nat.toDigits 10 d.digits).length - 1
  if layout.positionalFrom ≤ leading ∧ leading < layout.positionalBelow then
    String.ofList d.writePositional
  else String.ofList (d.writeScientific leading)

end Decimal

/-- **The text of a number** given by its bits. Zero keeps its sign, and what is no number has
none. -/
def FloatFormat.write (format : FloatFormat) (layout : Decimal.Layout) (bits : Nat) : String :=
  if format.isNaN bits then "NaN"
  else
    let sign := if format.isNegative bits then "-" else ""
    if format.isInfinite bits then sign ++ "inf"
    else if format.isZero bits then sign ++ "0.0"
    else sign ++ (Decimal.ofBits format bits).write layout

end Bytecode
