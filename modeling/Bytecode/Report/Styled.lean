/-!
# Coloured text

A text is made of pieces, each plain or in one colour. For a screen a coloured piece stands
between two escape sequences; without colours the pieces are simply joined.

## Main definitions

* `Color`, `Piece`: colours, and pieces of text
* `Piece.join`: the text of pieces, with or without colours
-/

namespace Bytecode

/-- **A colour**. -/
inductive Color where
  | red
  | palette (number : Nat)
  deriving DecidableEq

/-- The parameters that select a colour. -/
def Color.parameters : Color → String
  | red => "31"
  | palette number => s!"38;5;{number}"

/-- **A piece of text**, in one colour or plain. -/
structure Piece where
  color : Option Color
  text : String
  deriving DecidableEq

namespace Piece

/-- A piece without colour. -/
def plain (text : String) : Piece := ⟨none, text⟩

/-- A piece in a colour of the palette. -/
def tinted (number : Nat) (text : String) : Piece := ⟨some (.palette number), text⟩

/-- A piece as written: on a screen with colours, or without. -/
def render (colored : Bool) (piece : Piece) : String :=
  match colored, piece.color with
  | true, some color => "\x1b[" ++ color.parameters ++ "m" ++ piece.text ++ "\x1b[0m"
  | _, _ => piece.text

/-- **The text of pieces**, one after another. -/
def join (colored : Bool) (pieces : List Piece) : String :=
  String.join (pieces.map (·.render colored))

end Piece

end Bytecode
