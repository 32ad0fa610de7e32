/-!
# Binary floating-point numbers

A floating-point number is kept as its bits: a sign, an exponent field and a fraction field. Here
the bits are read; arithmetic is not needed.

## Main definitions

* `FloatFormat`, `FloatFormat.single`, `FloatFormat.double`: the widths of the fields
* `FloatFormat.isNaN`, `FloatFormat.isInfinite`, `FloatFormat.isZero`: the special values
* `FloatFormat.significand`, `FloatFormat.scale`: a finite value as `m · 2 ^ q`
* `FloatFormat.agree`: equality of numbers

## Main results

* `FloatFormat.agree_self_iff`: only what is no number differs from itself
-/

namespace Bytecode

/-- **A format** of floating-point numbers: the widths of the fraction and the exponent field. -/
structure FloatFormat where
  fractionBits : Nat
  exponentBits : Nat

namespace FloatFormat

/-- Numbers in 32 bits. -/
def single : FloatFormat := ⟨23, 8⟩

/-- Numbers in 64 bits. -/
def double : FloatFormat := ⟨52, 11⟩

variable (format : FloatFormat)

/-- The fraction field. -/
def fraction (bits : Nat) : Nat := bits % Nat.pow 2 format.fractionBits

/-- The exponent field. -/
def exponentField (bits : Nat) : Nat :=
  bits / Nat.pow 2 format.fractionBits % Nat.pow 2 format.exponentBits

/-- The sign bit is set. -/
def isNegative (bits : Nat) : Bool :=
  bits / Nat.pow 2 (format.fractionBits + format.exponentBits) % 2 == 1

/-- The exponent field of infinities and of what is no number. -/
def topField : Nat := Nat.pow 2 format.exponentBits - 1

/-- The bits stand for no number. -/
def isNaN (bits : Nat) : Bool :=
  format.exponentField bits == format.topField && format.fraction bits != 0

/-- The bits stand for an infinity. -/
def isInfinite (bits : Nat) : Bool :=
  format.exponentField bits == format.topField && format.fraction bits == 0

/-- The bits stand for a zero of either sign. -/
def isZero (bits : Nat) : Bool :=
  format.exponentField bits == 0 && format.fraction bits == 0

/-- The integer `m` of a finite magnitude `m · 2 ^ q`: the fraction, with the leading one that the
field leaves out unless the exponent field is zero. -/
def significand (bits : Nat) : Nat :=
  if format.exponentField bits = 0 then format.fraction bits
  else format.fraction bits + Nat.pow 2 format.fractionBits

/-- The exponent `q` of a finite magnitude `m · 2 ^ q`. -/
def scale (bits : Nat) : Int :=
  let bias := Nat.pow 2 (format.exponentBits - 1) - 1 + format.fractionBits
  (max (format.exponentField bits) 1 : Nat) - (bias : Int)

/-- The numbers just below and just above lie at different distances: the magnitude is a power of
two with a full leading digit, so the gap below it is half the gap above. -/
def hasNarrowGapBelow (bits : Nat) : Bool :=
  format.fraction bits == 0 && decide (1 < format.exponentField bits)

/-- **Equality of numbers**: zeros of either sign are equal, and what is no number equals
nothing. -/
def agree (a b : Nat) : Bool :=
  !format.isNaN a && !format.isNaN b && (a == b || (format.isZero a && format.isZero b))

theorem agree_self_iff (bits : Nat) :
    format.agree bits bits = true ↔ format.isNaN bits = false := by
  simp [agree]

end FloatFormat

end Bytecode
