/-!
# Hex digits

A hex digit has a value below sixteen. Digits are read in either case; which case is written is
the choice of the text that holds them.

## Main definitions

* `Hex.digitValue?`: the value of a digit of either case
* `Hex.upperDigit`, `Hex.lowerDigit`: the digit of a value
* `Hex.upperPair`, `Hex.lowerPair`: the two digits of a byte
* `Hex.lowerNumeral`: a number without leading zeros

## Main results

* `Hex.digitValue?_upperDigit`, `Hex.digitValue?_lowerDigit`: a written digit is read as its value
-/

namespace Bytecode.Hex

/-- The value of a hex digit of either case; `none` for every other character. -/
def digitValue? (c : Char) : Option (Fin 16) :=
  let code := c.toNat
  if h : 48 ≤ code ∧ code ≤ 57 then some ⟨code - 48, by omega⟩
  else if h : 97 ≤ code ∧ code ≤ 102 then some ⟨code - 87, by omega⟩
  else if h : 65 ≤ code ∧ code ≤ 70 then some ⟨code - 55, by omega⟩
  else none

/-- The upper-case digit of a value. -/
def upperDigit (value : Fin 16) : Char :=
  if value < 10 then Char.ofNat (48 + value) else Char.ofNat (55 + value)

/-- The lower-case digit of a value. -/
def lowerDigit (value : Fin 16) : Char :=
  if value < 10 then Char.ofNat (48 + value) else Char.ofNat (87 + value)

/-- The high half of a byte. -/
def highHalf (byte : UInt8) : Fin 16 :=
  ⟨byte.toNat / 16, by have := byte.toNat_lt; omega⟩

/-- The low half of a byte. -/
def lowHalf (byte : UInt8) : Fin 16 :=
  ⟨byte.toNat % 16, by omega⟩

/-- The byte with the given halves. -/
def byteOfHalves (hi lo : Fin 16) : UInt8 :=
  UInt8.ofNat (hi.val * 16 + lo.val)

/-- The two upper-case digits of a byte. -/
def upperPair (byte : UInt8) : List Char :=
  [upperDigit (highHalf byte), upperDigit (lowHalf byte)]

/-- The two lower-case digits of a byte. One pair behind another, without blanks, is the compact
spelling of bytes; a dump is the one for readers. -/
def lowerPair (byte : UInt8) : List Char :=
  [lowerDigit (highHalf byte), lowerDigit (lowHalf byte)]

/-- A number in lower-case digits, without leading zeros. -/
def lowerNumeral (n : Nat) : List Char :=
  Nat.toDigits 16 n

theorem digitValue?_upperDigit (value : Fin 16) : digitValue? (upperDigit value) = some value := by
  decide +revert

theorem digitValue?_lowerDigit (value : Fin 16) : digitValue? (lowerDigit value) = some value := by
  decide +revert

@[simp] theorem byteOfHalves_halves (byte : UInt8) :
    byteOfHalves (highHalf byte) (lowHalf byte) = byte := by
  have := byte.toNat_lt
  apply UInt8.toNat_inj.mp
  simp only [byteOfHalves, highHalf, lowHalf, UInt8.toNat_ofNat']
  omega

end Bytecode.Hex
