import Bytecode.ConstantRef
import Bytecode.Slot
import Bytecode.SmallInt

/-!
# Instructions

An instruction is an opcode with its operand. Its bytes are an optional mark `wide`, the opcode
and the bytes of the operand.

## Main definitions

* `Instruction`: the instructions
* `Instruction.opcode`, `Instruction.length`, `Instruction.bytes`: how one is written
* `Instruction.text`: how one is listed
* `Instruction.pushed`, `Instruction.popped`, `Instruction.failures`: what running it may do

## Main results

* `Instruction.length_bytes`: an instruction is as long as its bytes
* `Instruction.length_pos`, `Instruction.length_le`: and it has one to four of them
-/

namespace Bytecode

/-- **An instruction**. -/
inductive Instruction where
  | iconst (value : SmallInt)
  | bipush (value : Int8)
  | ldc (constant : ConstantRef)
  | fstore (slot : Slot)
  deriving DecidableEq

/-- A failure that running an instruction may raise. -/
inductive RuntimeFailure where
  | symbolicResolution
  deriving DecidableEq

/-- The wording of a failure. -/
def RuntimeFailure.message : RuntimeFailure → String
  | symbolicResolution => "symbolic resolution failure"

namespace Instruction

/-- The operand of a store of a single-precision number. -/
def floatOperand (slot : Slot) : StoreOperand := ⟨.float, slot⟩

/-- The opcode; for a store with the mark `wide`, the opcode after the mark. -/
def opcode : Instruction → Opcode
  | iconst value => value.opcode
  | bipush _ => .bipush
  | ldc constant => constant.opcode
  | fstore slot => (floatOperand slot).opcode

/-- The number of bytes, mark and opcode included. -/
def length : Instruction → Nat
  | iconst _ => 1
  | bipush _ => 2
  | ldc constant => constant.length
  | fstore slot => (floatOperand slot).length

/-- The instruction as written. -/
def bytes : Instruction → List UInt8
  | iconst value => [value.opcode.toByte]
  | bipush value => [Opcode.bipush.toByte, value.toUInt8]
  | ldc constant => constant.bytes
  | fstore slot => (floatOperand slot).bytes

/-- The stack words pushed. -/
def pushed : Instruction → Nat
  | iconst _ => 1
  | bipush _ => 1
  | ldc _ => 1
  | fstore _ => 0

/-- The stack words popped. -/
def popped : Instruction → Nat
  | iconst _ => 0
  | bipush _ => 0
  | ldc _ => 0
  | fstore _ => 1

/-- The failures that may be raised: only a constant has to be resolved. -/
def failures : Instruction → List RuntimeFailure
  | iconst _ => []
  | bipush _ => []
  | ldc _ => [.symbolicResolution]
  | fstore _ => []

/-- The operand in decimal; what the opcode holds is not repeated. -/
def operandText : Instruction → String
  | iconst _ => ""
  | bipush value => s!" {value.toInt}"
  | ldc constant => s!" {constant.index.toNat}"
  | fstore (.compact _) => ""
  | fstore (.byte slot) => s!" {slot.toNat}"
  | fstore (.wide slot) => s!" {slot.toNat}"

/-- The mnemonic, in a verbose listing with the opcode byte in brackets and the length in
parentheses. -/
def headText (verbose : Bool) (instruction : Instruction) : String :=
  let mnemonic := instruction.opcode.mnemonic
  if verbose then s!"{mnemonic}[{instruction.opcode.toByte.toNat}]({instruction.length})"
  else mnemonic

/-- **The text of an instruction**: its head and its operand. -/
def text (verbose : Bool) (instruction : Instruction) : String :=
  instruction.headText verbose ++ instruction.operandText

/-- **An instruction is as long as its bytes**. -/
@[simp] theorem length_bytes (instruction : Instruction) :
    instruction.bytes.length = instruction.length := by
  cases instruction <;> simp [bytes, length]

theorem length_pos (instruction : Instruction) : 0 < instruction.length := by
  rcases instruction with _ | _ | (_ | _) | (_ | _ | _) <;>
    simp [length, floatOperand, ConstantRef.length, StoreOperand.length, Slot.form, SlotForm.length]

theorem length_le (instruction : Instruction) : instruction.length ≤ 4 := by
  rcases instruction with _ | _ | (_ | _) | (_ | _ | _) <;>
    simp [length, floatOperand, ConstantRef.length, StoreOperand.length, Slot.form, SlotForm.length]

end Instruction

end Bytecode
