/-!
# Blank characters

A character is blank if it only makes room: spaces of all widths, tabs, and the ends of lines and
paragraphs. These are the characters with the property White_Space.

## Main definitions

* `Text.isBlank`: the blank characters
* `Text.trimEnd`: a text without the blanks at its end

## Main results

* `Text.isBlank_of_isWhitespace`: the blank characters of ASCII are among them
-/

namespace Bytecode.Text

/-- The first and the last code of each run of blank characters. -/
def blankRanges : List (Nat × Nat) :=
  [(0x09, 0x0D), (0x20, 0x20), (0x85, 0x85), (0xA0, 0xA0), (0x1680, 0x1680), (0x2000, 0x200A),
    (0x2028, 0x2029), (0x202F, 0x202F), (0x205F, 0x205F), (0x3000, 0x3000)]

/-- The code of a character lies in one of the given ranges. -/
def isWithin (ranges : List (Nat × Nat)) (c : Char) : Bool :=
  ranges.any fun (first, last) => first ≤ c.toNat && c.toNat ≤ last

/-- **A blank character**. -/
def isBlank (c : Char) : Bool := isWithin blankRanges c

/-- A text without the blanks at its end. -/
def trimEnd (text : List Char) : List Char :=
  (text.reverse.dropWhile isBlank).reverse

theorem isBlank_of_isWhitespace {c : Char} (h : c.isWhitespace = true) : isBlank c = true := by
  simp only [Char.isWhitespace, Bool.or_eq_true, decide_eq_true_eq] at h
  rcases h with ((rfl | rfl) | rfl) | rfl <;> rfl

end Bytecode.Text
