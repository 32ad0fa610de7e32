import Bytecode.Instruction.Consumption
import Bytecode.Instruction.Writing

/-!
# Code

Code is a sequence of instructions with the offset of each. It is laid out from instructions, or
decoded from a byte array: then the instructions are read one after another until no byte is left,
and the first that cannot be read is the failure of the whole.

## Main definitions

* `Code`, `Entry`: code, and an instruction with its offset
* `Code.ofInstructions`: instructions laid out back to back
* `DecodeOptions`, `Code.decode`: code from a byte array
* `Code.bytes`, `Code.byteLength`: code as a byte array, and its length
* `Entry.search`, `Code.at?`: the entry and the instruction that start at an offset
-/

namespace Bytecode

/-- **An instruction in its place**. -/
structure Entry where
  -- the offset of its first byte
  offset : Nat
  instruction : Instruction
  deriving DecidableEq

/-- **The entry with an offset**, in a list whose offsets ascend. The list is cut in the middle, and
the search goes on in the half where the offset may stand. -/
def Entry.search (offset : Nat) (entries : List Entry) : Option Entry :=
  match _ : entries.drop (entries.length / 2) with
  | [] => none
  | middle :: back =>
    if offset = middle.offset then some middle
    else if offset < middle.offset then search offset (entries.take (entries.length / 2))
    else search offset back
termination_by entries.length
decreasing_by
  all_goals
    have hlength : (entries.drop (entries.length / 2)).length = back.length + 1 := by simp [*]
    rw [List.length_drop] at hlength
  · rw [List.length_take]
    omega
  · omega

/-- **Code**: instructions in order, each with its offset. -/
structure Code where
  entries : List Entry
  deriving DecidableEq

/-- What is admitted as code. -/
structure DecodeOptions where
  maxCodeLength : Nat := 65535
  -- the mark `wide` is admitted
  allowWide : Bool := true

namespace Code

/-- Instructions back to back, the first at an offset. -/
def layout (offset : Nat) : List Instruction → List Entry
  | [] => []
  | instruction :: rest => ⟨offset, instruction⟩ :: layout (offset + instruction.length) rest

/-- **Code from instructions**, the first at offset zero. -/
def ofInstructions (instructions : List Instruction) : Code := ⟨layout 0 instructions⟩

/-- The instructions, in order. -/
def instructions (code : Code) : List Instruction := code.entries.map Entry.instruction

/-- The number of instructions. -/
def size (code : Code) : Nat := code.entries.length

/-- There is no instruction. -/
def isEmpty (code : Code) : Bool := code.entries.isEmpty

/-- The number of bytes. -/
def byteLength (code : Code) : Nat :=
  code.instructions.foldr (fun instruction total => instruction.length + total) 0

/-- **The bytes of code**, back to back. -/
def bytes (code : Code) : List UInt8 := code.instructions.flatMap Instruction.bytes

/-- The instruction that starts at an offset, if one does. -/
def at? (code : Code) (offset : Nat) : Option Instruction :=
  (Entry.search offset code.entries).map Entry.instruction

/-- The writes of code into a sink. -/
def write {σ ε : Type} (sink : Sink σ ε) (code : Code) : Writer σ ε Unit :=
  Instruction.writeAll sink code.instructions

/-- Reads instructions from a cursor to the end of its bytes. The entries found before stand in
reverse order in `found`. -/
def decodeFrom (allowWide : Bool) (cursor : Cursor) (found : List Entry) :
    Except DecodeError (List Entry) :=
  if cursor.isEmpty then .ok found.reverse
  else
    match _ : (Instruction.read allowWide).runAt cursor with
    | (.ok instruction, next) => decodeFrom allowWide next (⟨cursor.position, instruction⟩ :: found)
    | (.error e, _) => .error e
termination_by cursor.rest.length
decreasing_by exact Instruction.length_rest_of_read (by assumption)

/-- **Code from a byte array**. An array that is too long is refused before anything is read. -/
def decode (options : DecodeOptions) (bytes : List UInt8) : Except DecodeError Code :=
  if options.maxCodeLength < bytes.length then
    .error (.codeTooLong bytes.length options.maxCodeLength)
  else
    Code.mk <$> decodeFrom options.allowWide (.start bytes) []

@[simp] theorem map_instruction_layout (offset : Nat) (instructions : List Instruction) :
    (layout offset instructions).map Entry.instruction = instructions := by
  induction instructions generalizing offset with
  | nil => rfl
  | cons instruction rest ih => simp [layout, ih]

@[simp] theorem instructions_ofInstructions (instructions : List Instruction) :
    (ofInstructions instructions).instructions = instructions :=
  map_instruction_layout 0 instructions

@[simp] theorem length_bytes (code : Code) : code.bytes.length = code.byteLength := by
  unfold bytes byteLength
  induction code.instructions with
  | nil => rfl
  | cons instruction rest ih => simp [ih]

end Code

end Bytecode
