/-!
# Opcodes

An instruction opens with a one-byte opcode. Opcodes that belong together have neighbouring
bytes: `iconst` and `fstore` come in families whose operand is folded into the opcode itself.

## Main definitions

* `Opcode`, `Opcode.all`: the opcodes, and all of them in ascending order of their bytes
* `Opcode.toByte`, `Opcode.ofByte?`: the byte of an opcode, and the opcode of a byte
* `Opcode.mnemonic`: the name in listings

## Main results

* `Opcode.ofByte?_eq_some_iff`: the opcode of a byte is the one with that byte
-/

namespace Bytecode

/-- **An opcode**. `wide` is the one that opens no instruction: it is a mark before `fstore`. -/
inductive Opcode where
  | iconstM1
  | iconst0
  | iconst1
  | iconst2
  | iconst3
  | iconst4
  | iconst5
  | bipush
  | ldc
  | ldcW
  | fstore
  | fstore0
  | fstore1
  | fstore2
  | fstore3
  | wide
  deriving DecidableEq

namespace Opcode

/-- Every opcode, in ascending order of the bytes. -/
def all : List Opcode :=
  [iconstM1, iconst0, iconst1, iconst2, iconst3, iconst4, iconst5, bipush, ldc, ldcW, fstore,
    fstore0, fstore1, fstore2, fstore3, wide]

/-- The byte that stands for an opcode. -/
def toByte : Opcode → UInt8
  | iconstM1 => 0x02
  | iconst0 => 0x03
  | iconst1 => 0x04
  | iconst2 => 0x05
  | iconst3 => 0x06
  | iconst4 => 0x07
  | iconst5 => 0x08
  | bipush => 0x10
  | ldc => 0x12
  | ldcW => 0x13
  | fstore => 0x38
  | fstore0 => 0x43
  | fstore1 => 0x44
  | fstore2 => 0x45
  | fstore3 => 0x46
  | wide => 0xC4

/-- The lower-case name of an opcode. -/
def mnemonic : Opcode → String
  | iconstM1 => "iconst_m1"
  | iconst0 => "iconst_0"
  | iconst1 => "iconst_1"
  | iconst2 => "iconst_2"
  | iconst3 => "iconst_3"
  | iconst4 => "iconst_4"
  | iconst5 => "iconst_5"
  | bipush => "bipush"
  | ldc => "ldc"
  | ldcW => "ldc_w"
  | fstore => "fstore"
  | fstore0 => "fstore_0"
  | fstore1 => "fstore_1"
  | fstore2 => "fstore_2"
  | fstore3 => "fstore_3"
  | wide => "wide"

/-- The opcode a byte stands for, if any: a search of the table. -/
def ofByte? (byte : UInt8) : Option Opcode :=
  all.find? fun opcode => opcode.toByte == byte

theorem mem_all (opcode : Opcode) : opcode ∈ all := by
  cases opcode <;> decide

@[simp] theorem ofByte?_toByte (opcode : Opcode) : ofByte? opcode.toByte = some opcode := by
  cases opcode <;> rfl

/-- **The opcode of a byte** is the one that has this byte. -/
theorem ofByte?_eq_some_iff {byte : UInt8} {opcode : Opcode} :
    ofByte? byte = some opcode ↔ opcode.toByte = byte := by
  constructor
  · intro h
    simpa using List.find?_some h
  · rintro rfl
    exact ofByte?_toByte opcode

theorem ofByte?_eq_none_iff {byte : UInt8} :
    ofByte? byte = none ↔ ∀ opcode : Opcode, opcode.toByte ≠ byte := by
  rw [Option.eq_none_iff_forall_not_mem]
  exact forall_congr' fun _ => not_congr ofByte?_eq_some_iff

theorem toByte_injective {a b : Opcode} (h : a.toByte = b.toByte) : a = b := by
  simpa using congrArg ofByte? h

end Opcode

end Bytecode
