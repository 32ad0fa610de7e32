import Bytecode.Opcode
import Bytecode.Word

/-!
# References to constants

An `ldc` names a constant by its index, in one byte or in two. The form is part of the reference:
an index that fits in one byte may have been written in two, and then it stays so.

## Main definitions

* `ConstantRef`: a reference in its form
* `ConstantRef.ofIndex`, `ConstantRef.setIndex`: the shortest reference to an index, and a
  reference pointed at another one
* `ConstantRef.index`, `ConstantRef.opcode`, `ConstantRef.length`, `ConstantRef.bytes`: its parts

## Main results

* `ConstantRef.index_ofIndex`: the shortest reference names the index asked for
* `ConstantRef.length_bytes`: a reference is as long as its bytes
* `ConstantRef.eq_of_index_of_length`: index and length determine a reference
-/

namespace Bytecode

/-- **A reference to a constant**, in the form it is written in. -/
inductive ConstantRef where
  | short (index : UInt8)
  | long (index : UInt16)
  deriving DecidableEq

namespace ConstantRef

/-- The shortest reference to an index. -/
def ofIndex (index : UInt16) : ConstantRef :=
  if index.toNat < 256 then short (UInt8.ofNat index.toNat) else long index

/-- The reference pointed at another index. The form is chosen anew, whatever it was. -/
def setIndex (_ : ConstantRef) (index : UInt16) : ConstantRef := ofIndex index

/-- The index referred to. -/
def index : ConstantRef → UInt16
  | short index => UInt16.ofNat index.toNat
  | long index => index

/-- The index takes two bytes. -/
def isWide : ConstantRef → Bool
  | short _ => false
  | long _ => true

/-- The opcode that goes with the form. -/
def opcode : ConstantRef → Opcode
  | short _ => .ldc
  | long _ => .ldcW

/-- The number of bytes, opcode included. -/
def length : ConstantRef → Nat
  | short _ => 2
  | long _ => 3

/-- The opcode and the index as written. -/
def bytes : ConstantRef → List UInt8
  | short index => [Opcode.ldc.toByte, index]
  | long index => [Opcode.ldcW.toByte, Word.high index, Word.low index]

@[simp] theorem length_bytes (ref : ConstantRef) : ref.bytes.length = ref.length := by
  cases ref <;> rfl

@[simp] theorem toNat_index_short (index : UInt8) : (short index).index.toNat = index.toNat := by
  have := index.toNat_lt
  simp only [ConstantRef.index, UInt16.toNat_ofNat']
  omega

/-- **The shortest reference** names the index asked for. -/
@[simp] theorem index_ofIndex (index : UInt16) : (ofIndex index).index = index := by
  unfold ofIndex
  split
  · apply UInt16.toNat_inj.mp
    rw [toNat_index_short, UInt8.toNat_ofNat']
    omega
  · rfl

/-- The length tells the forms of a reference apart, and each names an index in one way. -/
theorem eq_of_index_of_length {a b : ConstantRef} (hindex : a.index = b.index)
    (hlength : a.length = b.length) : a = b := by
  cases a with
  | short index =>
    cases b with
    | short index' =>
      have htoNat : index.toNat = index'.toNat := by simpa using congrArg UInt16.toNat hindex
      rw [UInt8.toNat_inj.mp htoNat]
    | long => cases hlength
  | long index =>
    cases b with
    | short => cases hlength
    | long index' => rw [show index = index' from hindex]

end ConstantRef

end Bytecode
