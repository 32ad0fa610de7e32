import Bytecode.Hex.Digit
import Bytecode.Text.Blank

/-!
# Quoted text

A quoted text stands between two quotes. The quote itself, the backslash and every character that
would not show are escaped: the common ones by a letter, the others by their code in braces.

## Main definitions

* `Text.isShown`: the characters that stand for themselves
* `Text.escape`: one character of a quoted text
* `Text.quoteString`, `Text.quoteChar`: a quoted text, and a quoted character
-/

namespace Bytecode.Text

/-- Characters that do not show: controls, spaces other than the common one, formatting marks,
combining marks, and private ones. The ranges approximate these properties of Unicode: rarer
marks and most unassigned characters are missing, so U+0483 and U+0378 count as shown. -/
def hiddenRanges : List (Nat × Nat) :=
  [(0x00, 0x1F), (0x7F, 0xA0), (0xAD, 0xAD), (0x300, 0x36F), (0x600, 0x605), (0x61C, 0x61C),
    (0x1680, 0x1680), (0x180B, 0x180F), (0x2000, 0x200F), (0x2028, 0x202F), (0x205F, 0x206F),
    (0x3000, 0x3000), (0xE000, 0xF8FF), (0xFE00, 0xFE0F), (0xFE20, 0xFE2F), (0xFEFF, 0xFEFF),
    (0xFFF0, 0xFFFB), (0xF0000, 0x10FFFF)]

/-- A character that stands for itself wherever it needs no escape for another reason; this is as
exact as `hiddenRanges`. -/
def isShown (c : Char) : Bool := !isWithin hiddenRanges c

/-- **One character of a quoted text**, where `quote` stands at both ends. -/
def escape (quote c : Char) : List Char :=
  if c = '\x00' then ['\\', '0']
  else if c = '\t' then ['\\', 't']
  else if c = '\r' then ['\\', 'r']
  else if c = '\n' then ['\\', 'n']
  else if c = '\\' then ['\\', '\\']
  else if c = quote then ['\\', quote]
  else if isShown c then [c]
  else ['\\', 'u', '\x7b'] ++ Hex.lowerNumeral c.toNat ++ ['\x7d']

/-- A text between double quotes. -/
def quoteString (text : String) : String :=
  String.ofList ('"' :: text.toList.flatMap (escape '"') ++ ['"'])

/-- A character between single quotes. -/
def quoteChar (c : Char) : String :=
  String.ofList ('\'' :: escape '\'' c ++ ['\''])

end Bytecode.Text
