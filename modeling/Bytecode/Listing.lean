import Bytecode.Code
import Bytecode.LoadedValue
import Bytecode.Text.Align

/-!
# Listings

A listing has a line for each instruction: its offset, its text, and for an instruction that loads
a constant a note of what is loaded, if there is a source to look it up in.

## Main definitions

* `ListingOptions`: what a listing shows
* `Entry.line`: the line of one instruction
* `Code.listing`: the listing of code
-/

namespace Bytecode

/-- What a listing shows. -/
structure ListingOptions where
  verbose : Bool := false
  resolveConstants : Bool := true

/-- The text of what a reference loads, or between angle brackets why it loads nothing. -/
def ConstantRef.note (source : ConstantSource) (ref : ConstantRef) : String :=
  match ref.value source with
  | .ok value => "  // " ++ value.text
  | .error e => "  // <" ++ e.message ++ ">"

/-- The note after the text of an instruction: only what loads a constant has one. -/
def Instruction.note (source : Option ConstantSource) : Instruction → String
  | .ldc ref =>
    match source with
    | some source => ref.note source
    | none => ""
  | _ => ""

/-- **The line of an instruction**: its offset in four columns or more, its text and its note. -/
def Entry.line (options : ListingOptions) (source : Option ConstantSource) (entry : Entry) :
    String :=
  let note := if options.resolveConstants then entry.instruction.note source else ""
  Text.alignRight 4 (toString entry.offset) ++ ": " ++ entry.instruction.text options.verbose ++
    note ++ "\n"

/-- **The listing of code**, one line for each instruction. -/
def Code.listing (options : ListingOptions) (source : Option ConstantSource) (code : Code) :
    String :=
  String.join (code.entries.map (·.line options source))

end Bytecode
