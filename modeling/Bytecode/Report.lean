import Bytecode.Failure
import Bytecode.Hex.Dump
import Bytecode.Report.SourceLine
import Bytecode.Report.Styled

/-!
# Reports of failures

A report shows the line of a source in which something went wrong, marks the place, and says below
it what is wrong there. A failure that has no place, or whose source is empty, is a single line.

## Main definitions

* `Report`: what a report says and marks
* `MarkedLine`: the line that it shows, with the rows of marks
* `Report.pieces`: the report as drawn
* `byteSpan`: the place of a byte in a dump
* `Notice`, `Failure.notice`: what is shown of a failure
* `Failure.render`: the text of it
-/

namespace Bytecode

/-- **A report** of something wrong in a source. -/
structure Report where
  message : String
  sourceName : String
  source : List Char
  -- the place of the first character marked
  start : Nat
  -- the place after the last character marked
  stop : Nat
  label : String
  help : Option String

/-- **A line with the marks on it**: places are counted from the start of the line. -/
structure MarkedLine where
  line : SourceLine
  column : Nat
  count : Nat
  -- the place from which the arrow goes to the label
  middle : Nat

/-- **The line of a report**: the one that holds the first character marked. The arrow goes from
the middle of what is marked. -/
def Report.markedLine (report : Report) : MarkedLine :=
  let line := SourceLine.holding report.start report.source
  { line := line
    column := report.start - line.first
    count := report.stop - report.start
    middle := (report.start + report.stop) / 2 - line.first }

namespace MarkedLine

/-- The colour of the frame. -/
def frameColor : Nat := 246

/-- The colour of the frame beside the marks. -/
def marginColor : Nat := 240

/-- The colour of what is marked, and of the marks. -/
def markColor : Nat := 155

/-- The colour of the rest of the line. -/
def sourceColor : Nat := 249

/-- Spaces. -/
def spaces (count : Nat) : String := String.ofList (List.replicate count ' ')

variable (marked : MarkedLine)

/-- The number of the line. -/
def numeral : String := toString marked.line.number

/-- A place is marked. -/
def isMarked (place : Nat) : Bool :=
  marked.column ≤ place && place < marked.column + marked.count

/-- The columns at each place of a row of marks. The row reaches two places beyond what is marked;
past the end of the line every place is one column wide. -/
def widths : List Nat :=
  let places := marked.column + marked.count + 2
  (marked.line.cells.map Cell.width ++ List.replicate places 1).take places

/-- A mark, coloured unless it is a space. -/
def mark (symbol : Char) : Piece :=
  if symbol = ' ' then .plain " " else .tinted markColor symbol.toString

/-- A row of marks: at each place its first symbol, and the second in all further columns. -/
def row (symbols : Nat → Char × Char) : List Piece :=
  marked.widths.zipIdx.flatMap fun (width, place) =>
    let (first, further) := symbols place
    match width with
    | 0 => []
    | width + 1 => mark first :: List.replicate width (mark further)

/-- The symbols under the line: a rule under what is marked, with a joint in the middle. -/
def underline (place : Nat) : Char × Char :=
  if place = marked.middle then ('┬', '─')
  else if marked.isMarked place then ('─', '─')
  else (' ', ' ')

/-- The symbols of the arrow, from the middle of what is marked to the label. -/
def arrow (place : Nat) : Char × Char :=
  if place = marked.middle then ('╰', '─')
  else if marked.middle < place then ('─', '─')
  else (' ', ' ')

/-- What stands before a row of marks. -/
def margin : List Piece :=
  [.plain " ", .tinted marginColor (spaces (marked.numeral.length + 1) ++ "│"), .plain " "]

/-- The characters of the line, each a piece of its own. -/
def sourcePieces : List Piece :=
  marked.line.cells.zipIdx.flatMap fun (cell, place) =>
    let color := if marked.isMarked place then markColor else sourceColor
    cell.drawn.map fun c => .tinted color c.toString

end MarkedLine

namespace Report

open MarkedLine (frameColor spaces)

/-- The colour of the word before the advice. -/
def helpColor : Nat := 115

/-- The rows of a report: the message, where it is, the line with its marks, and the advice. -/
def rows (report : Report) : List (List Piece) :=
  let marked := report.markedLine
  let numberWidth := marked.numeral.length
  let indent := Piece.plain (spaces (numberWidth + 2))
  let place := s!" {report.sourceName}:{marked.numeral}:{marked.column + 1} "
  let rule := String.ofList (List.replicate (numberWidth + 2) '─')
  let advice :=
    match report.help with
    | some help =>
      [marked.margin, marked.margin ++ [.tinted helpColor "Help", .plain (": " ++ help)]]
    | none => []
  [[⟨some .red, "Error:"⟩, .plain (" " ++ report.message)],
    [indent, .tinted frameColor "╭", .tinted frameColor "─", .tinted frameColor "[",
      .plain place, .tinted frameColor "]"],
    [indent, .tinted frameColor "│"],
    [.plain " ", .tinted frameColor (marked.numeral ++ " │"), .plain " "] ++ marked.sourcePieces,
    marked.margin ++ marked.row marked.underline,
    marked.margin ++ marked.row marked.arrow ++ [.plain (" " ++ report.label)]] ++
    advice ++ [[.tinted frameColor (rule ++ "╯")]]

/-- **The report as drawn**. -/
def pieces (report : Report) : List Piece :=
  report.rows.flatMap fun row => row ++ [.plain "\n"]

end Report

/-- **The place of a byte** in the dump of `length` bytes: of its two digits, the first and the one
after the last. What lies past the end is shown at the last byte. -/
def byteSpan (offset length : Nat) : Nat × Nat :=
  let place := min offset (length - 1)
  (3 * place, 3 * place + 2)

/-- **What is shown of a failure**: one line, or a report. -/
inductive Notice where
  | line (message : String)
  | report (report : Report)

/-- What is said of the place of a failed decoding, and the advice. An array that is too long is
nowhere wrong. -/
def DecodeError.label? : DecodeError → Option (String × Option String)
  | unexpectedEnd _ needed _ => some (s!"needs {needed} more byte(s) after this", none)
  | unknownOpcode _ _ => some ("not an instruction", none)
  | illegalWide _ _ => some ("no wide form", some "`wide` may only precede fstore")
  | codeTooLong _ _ => none

namespace Failure

/-- **The notice of a failure**: a place in the hex text, or a place in the dump of the bytes. -/
def notice (failure : Failure) : Notice :=
  match failure with
  | .hex error input =>
    match error.position? with
    | some position =>
      .report ⟨failure.message, "<input>", input.toList, position, position + 1,
        "not a hex digit", none⟩
    | none => .line failure.message
  | .decode error bytes =>
    match error.offset?, error.label?, bytes with
    | some offset, some (label, help), _ :: _ =>
      let span := byteSpan offset bytes.length
      .report ⟨failure.message, "<code>", Hex.dump bytes, span.1, span.2, label, help⟩
    | _, _, _ => .line failure.message

/-- **The text of a failure**, with or without colours. A single line is never coloured. -/
def render (colored : Bool) (failure : Failure) : String :=
  match failure.notice with
  | .line message => "Error: " ++ message ++ "\n"
  | .report report => Piece.join colored report.pieces

end Failure

end Bytecode
