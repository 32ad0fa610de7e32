import Bytecode.Cursor
import Bytecode.Instruction

/-!
# Reading instructions

An instruction is read in two steps: its head, which is the opcode and whether the mark `wide`
stands before it, and then its operand. A decoder takes a head that has been read and reads the
operand; there is one for each kind of instruction, and one that admits them all.

## Main definitions

* `Head`: an opcode, with or without the mark
* `SmallInt.decode`, `Instruction.decodeByte`, `ConstantRef.decode`, `StoreOperand.decode`: the
  decoders of the kinds
* `Instruction.decode`: the decoder of all instructions
* `Instruction.read`: a head and its operand
-/

namespace Bytecode

/-- **The head of an instruction**: its opcode, and whether the mark `wide` stands before it. -/
structure Head where
  opcode : Opcode
  wide : Bool
  deriving DecidableEq

namespace Reader

/-- Refuses an opcode just read: it is not one of those asked for. -/
def refuseOpcode {α : Type} (opcode : Opcode) : Reader α := do
  let after ← position
  throw (.unknownOpcode opcode.toByte (after - 1))

/-- Refuses an opcode just read: it has no wide form. -/
def refuseWide {α : Type} (opcode : Opcode) : Reader α := do
  let after ← position
  throw (.illegalWide opcode.toByte (after - 1))

/-- Reads an opcode. The byte is taken also when it is none. -/
def opcode : Reader Opcode := do
  let offset ← position
  let byte ← Reader.byte
  match Opcode.ofByte? byte with
  | some opcode => return opcode
  | none => throw (.unknownOpcode byte offset)

end Reader

/-- The integer folded into the opcode of a head. Whether the head has the mark plays no part. -/
def SmallInt.decode (head : Head) : Reader SmallInt :=
  match SmallInt.ofOpcode? head.opcode with
  | some value => pure value
  | none => Reader.refuseOpcode head.opcode

/-- The signed byte after a head. Whether the head has the mark plays no part. -/
def Instruction.decodeByte (head : Head) : Reader Int8 :=
  if head.opcode = .bipush then Reader.signed else Reader.refuseOpcode head.opcode

namespace ConstantRef

/-- The reference after the opcode of the two-byte form. It keeps that form. -/
def decodeLong : Reader ConstantRef :=
  return long (← Reader.word)

/-- The reference after a head. Whether the head has the mark plays no part. -/
def decode (head : Head) : Reader ConstantRef :=
  match head.opcode with
  | .ldc => return short (← Reader.byte)
  | .ldcW => decodeLong
  | opcode => Reader.refuseOpcode opcode

end ConstantRef

/-- The operand of a store after a head. An opcode with a folded slot has no wide form. -/
def StoreOperand.decode (family : StoreFamily) (head : Head) : Reader StoreOperand :=
  match family.compactSlot? head.opcode with
  | some slot =>
    if head.wide then Reader.refuseWide head.opcode else pure ⟨family, .compact slot⟩
  | none =>
    if head.opcode ≠ family.generic then Reader.refuseOpcode head.opcode
    else if head.wide then return ⟨family, .wide (← Reader.word)⟩
    else return ⟨family, .byte (← Reader.byte)⟩

namespace Instruction

/-- The slot of a store of a single-precision number. -/
def decodeSlot (head : Head) : Reader Slot :=
  return (← StoreOperand.decode .float head).slot

/-- **The decoder of all instructions**. The mark is refused before every opcode but `fstore`, and
it is no instruction of its own. -/
def decode (head : Head) : Reader Instruction :=
  if head.wide ∧ head.opcode ≠ .fstore then Reader.refuseWide head.opcode
  else
    match head.opcode with
    | .iconstM1 | .iconst0 | .iconst1 | .iconst2 | .iconst3 | .iconst4 | .iconst5 =>
      return iconst (← SmallInt.decode head)
    | .bipush => return bipush (← decodeByte head)
    | .ldc | .ldcW => return ldc (← ConstantRef.decode head)
    | .fstore | .fstore0 | .fstore1 | .fstore2 | .fstore3 => return fstore (← decodeSlot head)
    | .wide => Reader.refuseWide .wide

/-- **Reads one instruction**, opcode included. The mark `wide` is refused where it is not allowed,
and before every opcode but `fstore`. -/
def read (allowWide : Bool) : Reader Instruction := do
  let start ← Reader.position
  let first ← Reader.opcode
  if first = .wide then
    if allowWide then
      let opcode ← Reader.opcode
      if opcode = .fstore then decode ⟨opcode, true⟩
      else throw (.illegalWide opcode.toByte (start + 1))
    else throw (.illegalWide Opcode.wide.toByte start)
  else decode ⟨first, false⟩

end Instruction

end Bytecode
