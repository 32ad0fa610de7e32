import Bytecode.Instruction.Consumption

/-!
# Instructions in a stream of bytes

The bytes of an instruction split into its head and its operand. Where they stand in a stream,
whatever follows them, a read gives back this very instruction and stops right after it. So no
instruction is the beginning of another, and a stream opens with at most one.

## Main definitions

* `Instruction.isMarked`, `Instruction.head`, `Instruction.operand`: the parts of the bytes
* `Head.operandLength`: the number of operand bytes that a head asks for
* `Head.Admitted`, `Instruction.Admitted`: the mark stands only where it may

## Main results

* `Instruction.runAt_read_bytes`: a read gives back what was written
* `Instruction.runAt_read_eq_ok_iff`: and it succeeds only in this way
* `Instruction.bytes_append_inj`: a stream opens with at most one instruction
* `Instruction.obtainable`: every instruction is the result of a constructor or of a read
-/

namespace Bytecode

open Reader

/-! ## Heads and operands -/

/-- The number of operand bytes that a head asks for. -/
def Head.operandLength (head : Head) : Nat :=
  match head.opcode with
  | .bipush | .ldc => 1
  | .ldcW => 2
  | .fstore => if head.wide then 2 else 1
  | _ => 0

theorem Head.operandLength_le (head : Head) : head.operandLength ≤ 2 := by
  rcases head with ⟨opcode, wide⟩
  cases opcode <;> cases wide <;> decide

/-- **A head is admitted**: its opcode is no mark, and a mark before it stands before `fstore`,
where marks are allowed. -/
structure Head.Admitted (allowWide : Bool) (head : Head) : Prop where
  opcode_ne_wide : head.opcode ≠ .wide
  of_wide : head.wide = true → head.opcode = .fstore ∧ allowWide = true

namespace Instruction

/-- The mark `wide` stands before the opcode. -/
def isMarked : Instruction → Bool
  | fstore (.wide _) => true
  | _ => false

/-- **An instruction is admitted** unless it has the mark and marks are not allowed. -/
def Admitted (allowWide : Bool) (instruction : Instruction) : Prop :=
  instruction.isMarked = true → allowWide = true

/-- The head of an instruction. -/
def head (instruction : Instruction) : Head := ⟨instruction.opcode, instruction.isMarked⟩

/-- What follows the head of an instruction. -/
def operand : Instruction → List UInt8
  | iconst _ => []
  | bipush value => [value.toUInt8]
  | ldc (.short index) => [index]
  | ldc (.long index) => [Word.high index, Word.low index]
  | fstore (.compact _) => []
  | fstore (.byte slot) => [slot]
  | fstore (.wide slot) => [Word.high slot, Word.low slot]

theorem admitted_true (instruction : Instruction) : instruction.Admitted true := fun _ => rfl

theorem bytes_eq_head_append (instruction : Instruction) :
    instruction.bytes = instruction.head.bytes ++ instruction.operand := by
  rcases instruction with _ | _ | (_ | _) | (_ | _ | _) <;> rfl

theorem opcode_ne_wide (instruction : Instruction) : instruction.opcode ≠ .wide := by
  rcases instruction with value | _ | (_ | _) | (slot | _ | _)
  case iconst => cases value <;> exact Opcode.noConfusion
  case fstore.compact => revert slot; decide
  all_goals exact Opcode.noConfusion

/-- An admitted instruction has an admitted head. -/
theorem Admitted.head {allowWide : Bool} {instruction : Instruction}
    (h : instruction.Admitted allowWide) : instruction.head.Admitted allowWide := by
  refine ⟨instruction.opcode_ne_wide, fun hmark => ⟨?_, h hmark⟩⟩
  rcases instruction with _ | _ | _ | (_ | _ | _)
  case fstore.wide => rfl
  all_goals exact absurd hmark Bool.false_ne_true

end Instruction

/-! ## Reading a head -/

namespace Reader

theorem runAt_opcode_cons (position : Nat) (byte : UInt8) (rest : List UInt8) :
    Reader.opcode.runAt ⟨position, byte :: rest⟩ =
      match Opcode.ofByte? byte with
      | some opcode => (.ok opcode, ⟨position + 1, rest⟩)
      | none => (.error (.unknownOpcode byte position), ⟨position + 1, rest⟩) := by
  unfold Reader.opcode
  rw [runAt_bind_of_ok (runAt_position _), runAt_bind_of_ok (runAt_byte_cons _ _ _)]
  cases Opcode.ofByte? byte <;> rfl

@[simp] theorem runAt_opcode_toByte (position : Nat) (opcode : Opcode) (rest : List UInt8) :
    Reader.opcode.runAt ⟨position, opcode.toByte :: rest⟩ = (.ok opcode, ⟨position + 1, rest⟩) := by
  rw [runAt_opcode_cons, Opcode.ofByte?_toByte]

theorem runAt_opcode_of_none {byte : UInt8} (h : Opcode.ofByte? byte = none) (position : Nat)
    (rest : List UInt8) :
    Reader.opcode.runAt ⟨position, byte :: rest⟩ =
      (.error (.unknownOpcode byte position), ⟨position + 1, rest⟩) := by
  rw [runAt_opcode_cons, h]

end Reader

namespace Instruction

variable {allowWide : Bool}

/-- **A read takes an admitted head** and goes on with the decoder, after the head. -/
theorem runAt_read_head {head : Head} (h : head.Admitted allowWide) (position : Nat)
    (rest : List UInt8) :
    (read allowWide).runAt ⟨position, head.bytes ++ rest⟩ =
      (decode head).runAt ⟨position + head.bytes.length, rest⟩ := by
  rcases head with ⟨opcode, _ | _⟩
  · have hopcode : opcode ≠ .wide := h.opcode_ne_wide
    unfold read
    rw [runAt_bind_of_ok (runAt_position _)]
    refine (runAt_bind_of_ok (runAt_opcode_toByte position opcode rest) _).trans ?_
    rw [if_neg hopcode]
    rfl
  · obtain ⟨rfl, rfl⟩ : opcode = .fstore ∧ allowWide = true := h.of_wide rfl
    rfl

/-- **An operand is decoded as the instruction it belongs to**. -/
theorem runAt_decode_operand (instruction : Instruction) (position : Nat) (rest : List UInt8) :
    (decode instruction.head).runAt ⟨position, instruction.operand ++ rest⟩ =
      (.ok instruction, ⟨position + instruction.operand.length, rest⟩) := by
  rcases instruction with value | value | (index | index) | (slot | slot | slot)
  case iconst => cases value <;> rfl
  case fstore.compact => revert slot; exact fun | 0 | 1 | 2 | 3 => rfl
  -- the operands of one byte come back as they are, those of two are put together again
  case ldc.long =>
    show (Except.ok (ldc (.long (Word.ofBytes (Word.high index) (Word.low index)))), _) = _
    rw [Word.ofBytes_high_low]
    rfl
  case fstore.wide =>
    show (Except.ok (fstore (.wide (Word.ofBytes (Word.high slot) (Word.low slot)))), _) = _
    rw [Word.ofBytes_high_low]
    rfl
  all_goals rfl

/-- **A read gives back what was written**, and stops after it. -/
theorem runAt_read_bytes {instruction : Instruction} (h : instruction.Admitted allowWide)
    (position : Nat) (rest : List UInt8) :
    (read allowWide).runAt ⟨position, instruction.bytes ++ rest⟩ =
      (.ok instruction, ⟨position + instruction.length, rest⟩) := by
  have hlength : instruction.length =
      instruction.head.bytes.length + instruction.operand.length := by
    rw [← length_bytes, bytes_eq_head_append, List.length_append]
  rw [bytes_eq_head_append, List.append_assoc, runAt_read_head h.head, runAt_decode_operand,
    hlength, Nat.add_assoc]

/-- A mark is refused where marks are not allowed, whatever follows it. -/
theorem runAt_read_of_refused_mark (position : Nat) (rest : List UInt8) :
    (read false).runAt ⟨position, Opcode.wide.toByte :: rest⟩ =
      (.error (.illegalWide Opcode.wide.toByte position), ⟨position + 1, rest⟩) := by
  rfl

theorem admitted_of_read {cursor next : Cursor} {instruction : Instruction}
    (h : (read allowWide).runAt cursor = (.ok instruction, next)) :
    instruction.Admitted allowWide := by
  cases allowWide with
  | true => exact instruction.admitted_true
  | false =>
    -- with a mark, the bytes that were read would open with one, and that is refused
    intro hmark
    have hbytes : instruction.bytes =
        Opcode.wide.toByte :: instruction.opcode.toByte :: instruction.operand := by
      simp [bytes_eq_head_append, Instruction.head, Head.bytes, hmark]
    obtain ⟨position, rest⟩ := cursor
    have hrest : rest = _ := (movesOver_of_read h).1
    rw [hrest, hbytes, List.cons_append, runAt_read_of_refused_mark] at h
    simp at h

/-- **A read succeeds exactly on the bytes of an admitted instruction**. -/
theorem runAt_read_eq_ok_iff {cursor next : Cursor} {instruction : Instruction} :
    (read allowWide).runAt cursor = (.ok instruction, next) ↔
      instruction.Admitted allowWide ∧ cursor.MovesOver instruction.bytes next := by
  constructor
  · exact fun h => ⟨admitted_of_read h, movesOver_of_read h⟩
  · rintro ⟨hadmitted, hrest, hposition⟩
    obtain ⟨position, rest⟩ := cursor
    obtain ⟨position', rest'⟩ := next
    simp only [length_bytes] at hrest hposition
    rw [hrest, runAt_read_bytes hadmitted, hposition]

/-- **A stream opens with at most one instruction**. -/
theorem bytes_append_inj {a b : Instruction} {rest rest' : List UInt8}
    (h : a.bytes ++ rest = b.bytes ++ rest') : a = b ∧ rest = rest' := by
  have hread := runAt_read_bytes a.admitted_true 0 rest
  rw [h, runAt_read_bytes b.admitted_true] at hread
  simp only [Prod.mk.injEq, Except.ok.injEq, Cursor.mk.injEq] at hread
  exact ⟨hread.1.symm, hread.2.2.symm⟩

theorem bytes_injective {a b : Instruction} (h : a.bytes = b.bytes) : a = b := by
  have happend : a.bytes ++ [] = b.bytes ++ [] := by rw [h]
  exact (bytes_append_inj happend).1

theorem bytes_ne_nil (instruction : Instruction) : instruction.bytes ≠ [] := by
  rw [← List.length_pos_iff, length_bytes]
  exact instruction.length_pos

/-- **Instructions back to back can be told apart**. -/
theorem flatMap_bytes_injective {instructions others : List Instruction}
    (h : instructions.flatMap bytes = others.flatMap bytes) : instructions = others := by
  induction instructions generalizing others with
  | nil =>
    rcases others with _ | ⟨other, others⟩
    · rfl
    · exact absurd (List.append_eq_nil_iff.mp h.symm).1 other.bytes_ne_nil
  | cons instruction instructions ih =>
    rcases others with _ | ⟨other, others⟩
    · exact absurd (List.append_eq_nil_iff.mp h).1 instruction.bytes_ne_nil
    · obtain ⟨rfl, hrest⟩ := bytes_append_inj h
      rw [ih hrest]

/-! ## Where instructions come from -/

/-- **An instruction is obtained** from a constructor, by pointing a reference at another index,
or by a read from some stream. -/
inductive Obtainable : Instruction → Prop
  | iconst {value : Int} {small : SmallInt} (h : SmallInt.ofInt value = .ok small) :
      Obtainable (.iconst small)
  | bipush (value : Int8) : Obtainable (.bipush value)
  | ldc (index : UInt16) : Obtainable (.ldc (.ofIndex index))
  | setIndex {ref : ConstantRef} (h : Obtainable (.ldc ref)) (index : UInt16) :
      Obtainable (.ldc (ref.setIndex index))
  | fstore (index : UInt16) : Obtainable (.fstore (.ofIndex index))
  | read {instruction : Instruction} {cursor next : Cursor}
      (h : (Instruction.read true).runAt cursor = (.ok instruction, next)) :
      Obtainable instruction

/-- **Every instruction is obtained** in one of these ways: the type holds no others. -/
theorem obtainable (instruction : Instruction) : instruction.Obtainable :=
  .read (runAt_read_bytes instruction.admitted_true 0 [])

end Instruction

end Bytecode
