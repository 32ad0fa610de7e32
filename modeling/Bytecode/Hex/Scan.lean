import Bytecode.Hex.Digit
import Bytecode.Text.Quoted

/-!
# Bytes written in hex

Bytes are written as pairs of hex digits. Blanks and commas may stand anywhere between the digits,
even within a pair, and so may the marks `0x` and `0X`. The digits are collected first, and paired
afterwards.

## Main definitions

* `HexError`, `HexError.message`: why a text holds no bytes
* `Hex.digits`: the digits of a text
* `Hex.parse`: the bytes of a text
-/

namespace Bytecode

/-- **Why a text holds no bytes**. -/
inductive HexError where
  -- the character at a position is no digit, and not skipped either
  | invalidDigit (c : Char) (position : Nat)
  -- the last of the digits has no partner
  | oddLength (digits : Nat)
  deriving DecidableEq

namespace HexError

/-- The position of the character at fault; an odd number of digits has none. -/
def position? : HexError → Option Nat
  | invalidDigit _ position => some position
  | oddLength _ => none

/-- The wording of a cause. -/
def message : HexError → String
  | invalidDigit c position =>
    "invalid hex digit " ++ Text.quoteChar c ++ s!" at position {position}"
  | oddLength digits => s!"odd number of hex digits ({digits})"

end HexError

namespace Hex

/-- Characters that are skipped between digits. -/
def isSeparator (c : Char) : Bool := Text.isBlank c || c == ','

/-- The digits of a text whose first character has the given position, after the digits found
before, which stand in reverse order in `found`. A zero before `x` or `X` is no digit, but a mark
together with it. -/
def digitsFrom (position : Nat) (found : List (Fin 16)) :
    List Char → Except HexError (List (Fin 16))
  | [] => .ok found.reverse
  | '0' :: 'x' :: rest => digitsFrom (position + 2) found rest
  | '0' :: 'X' :: rest => digitsFrom (position + 2) found rest
  | c :: rest =>
    if isSeparator c then digitsFrom (position + 1) found rest
    else
      match digitValue? c with
      | some value => digitsFrom (position + 1) (value :: found) rest
      | none => .error (.invalidDigit c position)

/-- **The digits of a text**, in order. -/
def digits (text : List Char) : Except HexError (List (Fin 16)) := digitsFrom 0 [] text

/-- The bytes of paired digits, after the bytes in `found`, which are in reverse order; `none` if
the last digit has no partner. -/
def pairFrom (found : List UInt8) : List (Fin 16) → Option (List UInt8)
  | [] => some found.reverse
  | [_] => none
  | hi :: lo :: rest => pairFrom (byteOfHalves hi lo :: found) rest

/-- **The bytes of a text**. -/
def parse (text : List Char) : Except HexError (List UInt8) := do
  let values ← digits text
  match pairFrom [] values with
  | some bytes => return bytes
  | none => throw (.oddLength values.length)

end Hex

end Bytecode
