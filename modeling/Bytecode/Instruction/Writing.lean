import Bytecode.Instruction
import Bytecode.Sink

/-!
# Writing instructions

An instruction goes into a sink by one write for each part of it: the mark `wide`, the opcode, and
the operand as a byte, a signed byte or a word. The first write that fails ends it.

## Main definitions

* `ConstantRef.write`, `StoreOperand.write`, `Instruction.write`: the writes of one instruction
* `Instruction.writeAll`: the writes of a sequence of instructions
-/

namespace Bytecode

variable {σ ε : Type}

/-- The writes of a reference to a constant. -/
def ConstantRef.write (sink : Sink σ ε) : ConstantRef → Writer σ ε Unit
  | short index => do
    sink.byte Opcode.ldc.toByte
    sink.byte index
  | long index => do
    sink.byte Opcode.ldcW.toByte
    sink.word index

/-- The writes of a store. -/
def StoreOperand.write (sink : Sink σ ε) (operand : StoreOperand) : Writer σ ε Unit :=
  match operand.slot with
  | .compact slot => sink.byte (operand.family.compactOpcode slot).toByte
  | .byte slot => do
    sink.byte operand.family.generic.toByte
    sink.byte slot
  | .wide slot => do
    sink.byte Opcode.wide.toByte
    sink.byte operand.family.generic.toByte
    sink.word slot

namespace Instruction

/-- **The writes of an instruction**. -/
def write (sink : Sink σ ε) : Instruction → Writer σ ε Unit
  | iconst value => sink.byte value.opcode.toByte
  | bipush value => do
    sink.byte Opcode.bipush.toByte
    sink.signed value
  | ldc constant => constant.write sink
  | fstore slot => (floatOperand slot).write sink

/-- **The writes of a sequence of instructions**, back to back. -/
def writeAll (sink : Sink σ ε) : List Instruction → Writer σ ε Unit
  | [] => pure ()
  | instruction :: rest => do
    instruction.write sink
    writeAll sink rest

end Instruction

end Bytecode
