import Bytecode.Text.Width

/-!
# Lines of a source

A source text is cut into lines, each with the characters that end it. A report shows the line
that holds a place of the source, character by character in columns.

## Main definitions

* `SourceLine`: a line with its number and its place
* `SourceLine.split`: the lines of a text
* `SourceLine.holding`: the line that holds a place
* `Cell`, `SourceLine.cells`: the characters of a line as they are drawn
-/

namespace Bytecode

/-- **A line of a source**. -/
structure SourceLine where
  number : Nat
  -- the place of its first character in the source
  first : Nat
  -- its characters, with those that end it
  text : List Char
  deriving DecidableEq

/-- **A character as drawn**. -/
structure Cell where
  drawn : List Char
  width : Nat
  deriving DecidableEq

namespace SourceLine

/-- Characters that end a line. -/
def isLineEnd (c : Char) : Bool :=
  c.toNat ∈ [0x0A, 0x0B, 0x0C, 0x0D, 0x85, 0x2028, 0x2029]

/-- The lines of a text, after the lines `found` and the characters `current` of the next one, both
in reverse order. A carriage return and a line feed end a line together. -/
def splitFrom (found : List (List Char)) (current : List Char) : List Char → List (List Char)
  | [] => (current.reverse :: found).reverse
  | '\r' :: '\n' :: rest => splitFrom (('\n' :: '\r' :: current).reverse :: found) [] rest
  | c :: rest =>
    if isLineEnd c then splitFrom ((c :: current).reverse :: found) [] rest
    else splitFrom found (c :: current) rest

/-- **The lines of a text**. What follows the last end of a line is a line too. -/
def split (text : List Char) : List (List Char) := splitFrom [] [] text

/-- The line that holds a place, among lines of which the first has the given number and place. -/
def find (place : Nat) (number first : Nat) : List (List Char) → SourceLine
  | [] => ⟨number, first, []⟩
  | line :: rest =>
    if place < first + line.length then ⟨number, first, line⟩
    else find place (number + 1) (first + line.length) rest

/-- **The line that holds a place** of a source. -/
def holding (place : Nat) (source : List Char) : SourceLine :=
  find place 1 0 (split source)

/-- A character at a place of its line as it is drawn: a tab as spaces up to the next multiple of
four places, every other blank as one space. -/
def cell (place : Nat) (c : Char) : Cell :=
  if c = '\t' then
    let spaces := (place / 4 + 1) * 4 - place
    ⟨List.replicate spaces ' ', spaces⟩
  else if Text.isBlank c then ⟨[' '], 1⟩
  else ⟨[c], Text.columns c⟩

/-- **The characters of a line as drawn**, without the blanks at its end. -/
def cells (line : SourceLine) : List Cell :=
  (Text.trimEnd line.text).zipIdx.map fun (c, place) => cell place c

end SourceLine

end Bytecode
