import Bytecode.Opcode
import Bytecode.Word

/-!
# Local-variable slots

A store names the local variable it writes by a slot, in one of three forms: folded into the
opcode, in one byte after it, or in two bytes after it with the mark `wide` in front. The form is
part of the slot, since the shortest one is not always the one that was written.

## Main definitions

* `Slot`, `SlotForm`: a slot in its form, and the form alone
* `Slot.ofIndex`: a slot in its shortest form
* `StoreFamily`: the opcodes of one kind of store
* `StoreOperand`: a slot together with the family that stores into it

## Main results

* `Slot.index_ofIndex`: the shortest form names the slot asked for
* `StoreOperand.length_bytes`: an operand is as long as its bytes
-/

namespace Bytecode

/-- **The forms of a slot**. -/
inductive SlotForm where
  | compact
  | byte
  | wide
  deriving DecidableEq

/-- The number of bytes of a store whose slot has this form, opcode and mark included. -/
def SlotForm.length : SlotForm → Nat
  | compact => 1
  | byte => 2
  | wide => 4

/-- **A local-variable slot**, in the form it is written in. -/
inductive Slot where
  -- folded into the opcode
  | compact (slot : Fin 4)
  | byte (slot : UInt8)
  -- in two bytes, after the mark `wide`
  | wide (slot : UInt16)
  deriving DecidableEq

namespace Slot

/-- The slot at an index, in its shortest form. -/
def ofIndex (index : UInt16) : Slot :=
  if h : index.toNat < 4 then compact ⟨index.toNat, h⟩
  else if index.toNat < 256 then byte (UInt8.ofNat index.toNat)
  else wide index

/-- The index of the local variable. -/
def index : Slot → UInt16
  | compact slot => UInt16.ofNat slot.val
  | byte slot => UInt16.ofNat slot.toNat
  | wide slot => slot

/-- The form alone. -/
def form : Slot → SlotForm
  | compact _ => .compact
  | byte _ => .byte
  | wide _ => .wide

@[simp] theorem toNat_index_compact (slot : Fin 4) : (compact slot).index.toNat = slot.val := by
  simp only [Slot.index, UInt16.toNat_ofNat']
  omega

@[simp] theorem toNat_index_byte (slot : UInt8) : (byte slot).index.toNat = slot.toNat := by
  have := slot.toNat_lt
  simp only [Slot.index, UInt16.toNat_ofNat']
  omega

/-- **The shortest form** names the slot asked for. -/
@[simp] theorem index_ofIndex (index : UInt16) : (ofIndex index).index = index := by
  apply UInt16.toNat_inj.mp
  unfold ofIndex
  split
  · exact toNat_index_compact _
  · split
    · rw [toNat_index_byte, UInt8.toNat_ofNat']
      omega
    · rfl

end Slot

/-- **A family of stores**: the opcode whose slot follows it, and the four opcodes whose slot is
folded in. -/
structure StoreFamily where
  generic : Opcode
  -- the opcodes with a folded slot, in the order of the slots
  compact : Vector Opcode 4
  deriving DecidableEq

namespace StoreFamily

/-- The stores of single-precision numbers. -/
def float : StoreFamily where
  generic := .fstore
  compact := #v[.fstore0, .fstore1, .fstore2, .fstore3]

/-- The opcode that has a slot folded in. -/
def compactOpcode (family : StoreFamily) (slot : Fin 4) : Opcode := family.compact[slot]

/-- The first slot that an opcode has folded in, if it has one. -/
def compactSlot? (family : StoreFamily) (opcode : Opcode) : Option (Fin 4) :=
  (List.finRange 4).find? fun slot => family.compactOpcode slot == opcode

theorem compactOpcode_of_compactSlot? {family : StoreFamily} {opcode : Opcode} {slot : Fin 4}
    (h : family.compactSlot? opcode = some slot) : family.compactOpcode slot = opcode := by
  simpa using List.find?_some h

/-- The opcode bytes of `float` stand in the order of the slots. -/
theorem toNat_toByte_compactOpcode (slot : Fin 4) :
    (float.compactOpcode slot).toByte.toNat = slot.val + 0x43 := by
  revert slot
  decide

end StoreFamily

/-- **The operand of a store**: a slot, and the family whose opcodes write it. -/
structure StoreOperand where
  family : StoreFamily
  slot : Slot
  deriving DecidableEq

namespace StoreOperand

/-- The operand for the slot at an index, in its shortest form. -/
def ofIndex (family : StoreFamily) (index : UInt16) : StoreOperand :=
  ⟨family, Slot.ofIndex index⟩

/-- The opcode that goes with the form of the slot. -/
def opcode (operand : StoreOperand) : Opcode :=
  match operand.slot with
  | .compact slot => operand.family.compactOpcode slot
  | .byte _ => operand.family.generic
  | .wide _ => operand.family.generic

/-- The number of bytes, opcode and mark included. -/
def length (operand : StoreOperand) : Nat :=
  operand.slot.form.length

/-- The store as written. -/
def bytes (operand : StoreOperand) : List UInt8 :=
  match operand.slot with
  | .compact slot => [(operand.family.compactOpcode slot).toByte]
  | .byte slot => [operand.family.generic.toByte, slot]
  | .wide slot =>
    [Opcode.wide.toByte, operand.family.generic.toByte, Word.high slot, Word.low slot]

@[simp] theorem length_bytes (operand : StoreOperand) :
    operand.bytes.length = operand.length := by
  rcases operand with ⟨_, _ | _ | _⟩ <;> rfl

end StoreOperand

end Bytecode
