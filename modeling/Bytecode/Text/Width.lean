import Bytecode.Text.Blank

/-!
# Columns of characters

On a screen most characters take one column, those of East Asian scripts and pictures take two,
and marks that join the character before them take none.

## Main definitions

* `Text.columns`: the columns a character takes
-/

namespace Bytecode.Text

/-- Characters that take no column: soft hyphens, combining marks and joiners. The ranges hold the
common ones and approximate the property of Unicode. -/
def zeroColumnRanges : List (Nat × Nat) :=
  [(0xAD, 0xAD), (0x300, 0x36F), (0x180B, 0x180F), (0x200B, 0x200F), (0x2060, 0x2064),
    (0xFE00, 0xFE0F), (0xFE20, 0xFE2F), (0xFEFF, 0xFEFF)]

/-- Characters that take two columns: East Asian scripts, full-width forms and pictures. The ranges
are mostly whole blocks and approximate the property of Unicode. -/
def twoColumnRanges : List (Nat × Nat) :=
  [(0x1100, 0x115F), (0x2E80, 0x303E), (0x3041, 0x33FF), (0x3400, 0x4DBF), (0x4E00, 0x9FFF),
    (0xA000, 0xA4CF), (0xAC00, 0xD7A3), (0xF900, 0xFAFF), (0xFE30, 0xFE6F), (0xFF01, 0xFF60),
    (0xFFE0, 0xFFE6), (0x1F300, 0x1F64F), (0x1F900, 0x1F9FF), (0x20000, 0x3FFFD)]

/-- **The columns of a character**, as far as the two tables tell them: outside their ranges a
character takes one. A blank takes one, however wide a space it is. -/
def columns (c : Char) : Nat :=
  if isBlank c then 1
  else if isWithin zeroColumnRanges c then 0
  else if isWithin twoColumnRanges c then 2
  else 1

end Bytecode.Text
