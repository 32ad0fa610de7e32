import Bytecode.Instruction.Consumption
import Bytecode.Proofs.Instruction.Written

/-!
# Decoders and the mark

A decoder is told the head of an instruction: its opcode, and whether the mark `wide` stands before
it. The mark lies before the cursor like the opcode, so an instruction accounts for what was read if
it is as long as head and operand together, and is written as they were. The decoders that look at
the mark refuse it where the instruction has none, and then this holds. Three decoders do not look
at it: the instruction they give has the bytes of the head without the mark, so it accounts for a
marked head never, and always for the same head without the mark.

## Main definitions

* `Decoder`, `Decoder.decode`: the decoders of the kinds, and the one of all instructions
* `Decoder.heedsMark`, `Decoder.heeded`: the decoders that look at the mark, and what a decoder sees
  of a head
* `Instruction.Accounts`: an instruction is as long as what was read, and written as it was

## Main results

* `Instruction.accounts_iff`: an instruction accounts for exactly its own bytes
* `Decoder.decode_eq_ok`: a decoder gives the bytes of the head that it sees and of the operand
* `Decoder.accounts_of_decode`: when an instruction accounts for what was read
-/

namespace Bytecode

open Reader

/-! ## Accounting for what was read -/

namespace Instruction

variable {head : Head} {run : List UInt8} {instruction : Instruction}

/-- **An instruction accounts for a head and the operand bytes read after it**: it is as long as
both, and is written as they stood. -/
structure Accounts (head : Head) (run : List UInt8) (instruction : Instruction) : Prop where
  length : instruction.length = (if head.wide then 1 else 0) + 1 + run.length
  written : ∀ held, (instruction.write Sink.buffer).runAt held =
    (.ok (), held ++ (head.bytes ++ run).toArray)

/-- **An instruction accounts** for exactly its own bytes. -/
theorem accounts_iff : instruction.Accounts head run ↔ instruction.bytes = head.bytes ++ run := by
  constructor
  · intro h
    have hwritten := h.written #[]
    rw [runAt_write_buffer] at hwritten
    simpa using congrArg Prod.snd hwritten
  · intro h
    refine ⟨?_, fun held => ?_⟩
    · rw [← length_bytes, h, List.length_append, Head.length_bytes]
      split
      · rfl
      · rfl
    · rw [runAt_write_buffer, h]

end Instruction

/-! ## The decoders -/

/-- **A decoder** of one kind of instruction, or of all. -/
inductive Decoder where
  | iconst
  | bipush
  | ldc
  | fstore
  | all
  deriving DecidableEq

namespace Decoder

/-- The instruction after a head, as a decoder reads it. -/
def decode (head : Head) : Decoder → Reader Instruction
  | iconst => return .iconst (← SmallInt.decode head)
  | bipush => return .bipush (← Instruction.decodeByte head)
  | ldc => return .ldc (← ConstantRef.decode head)
  | fstore => return .fstore (← Instruction.decodeSlot head)
  | all => Instruction.decode head

/-- A decoder looks at the mark, and refuses it where the instruction has none. -/
def heedsMark : Decoder → Bool
  | iconst | bipush | ldc => false
  | fstore | all => true

/-- What a decoder sees of a head. -/
def heeded (decoder : Decoder) (head : Head) : Head :=
  ⟨head.opcode, decoder.heedsMark && head.wide⟩

variable {decoder : Decoder} {head : Head} {cursor next : Cursor} {instruction : Instruction}

theorem heeded_of_heedsMark (h : decoder.heedsMark = true) : decoder.heeded head = head := by
  rw [heeded, h, Bool.true_and]

theorem bytes_heeded_of_not_heedsMark (h : decoder.heedsMark = false) :
    (decoder.heeded head).bytes = [head.opcode.toByte] := by
  refine Head.bytes_of_not_wide ?_
  rw [heeded, h, Bool.false_and]

/-- **A decoder** gives an instruction with the opcode of the head. It moves over the operand, and
the bytes of the instruction are those of the head as the decoder sees it and of the operand. -/
theorem decode_eq_ok (h : (decoder.decode head).runAt cursor = (.ok instruction, next)) :
    instruction.opcode = head.opcode ∧ ∃ run, cursor.MovesOver run next ∧
      instruction.bytes = (decoder.heeded head).bytes ++ run := by
  -- a decoder that does not see the mark gives an instruction that has none
  cases decoder with
  | iconst =>
    obtain ⟨value, hdecode, rfl⟩ := runAt_bind_pure_eq_ok h
    obtain ⟨hopcode, rfl⟩ := SmallInt.decode_eq_ok hdecode
    refine ⟨hopcode, [], .refl _, ?_⟩
    rw [bytes_heeded_of_not_heedsMark rfl, ← hopcode]
    rfl
  | bipush =>
    obtain ⟨value, hdecode, rfl⟩ := runAt_bind_pure_eq_ok h
    obtain ⟨hopcode, hmoves⟩ := Instruction.decodeByte_eq_ok hdecode
    refine ⟨hopcode.symm, _, hmoves, ?_⟩
    rw [bytes_heeded_of_not_heedsMark rfl, hopcode]
    rfl
  | ldc =>
    obtain ⟨ref, hdecode, rfl⟩ := runAt_bind_pure_eq_ok h
    obtain ⟨hopcode, run, hbytes, hmoves⟩ := ConstantRef.decode_eq_ok hdecode
    refine ⟨hopcode, run, hmoves, ?_⟩
    rw [bytes_heeded_of_not_heedsMark rfl]
    exact hbytes
  | fstore =>
    obtain ⟨slot, hdecode, rfl⟩ := runAt_bind_pure_eq_ok h
    obtain ⟨hopcode, run, hbytes, hmoves⟩ := Instruction.decodeSlot_eq_ok hdecode
    exact ⟨hopcode, run, hmoves, by rwa [heeded_of_heedsMark rfl]⟩
  | all =>
    obtain ⟨hopcode, run, hbytes, hmoves⟩ := Instruction.decode_eq_ok h
    exact ⟨hopcode, run, hmoves, by rwa [heeded_of_heedsMark rfl]⟩

/-- The bytes of a head as a decoder sees it are those of the head, unless the decoder does not look
at a mark that is there. -/
theorem bytes_heeded_eq_iff :
    (decoder.heeded head).bytes = head.bytes ↔ (head.wide = true → decoder.heedsMark = true) := by
  rcases head with ⟨opcode, wide⟩
  cases decoder <;> cases wide <;> simp [heeded, heedsMark, Head.bytes]

/-- **When a decoder accounts for what was read**. Whatever a decoder gives, it has the opcode of
the head and accounts for the head as the decoder sees it, with the operand bytes that were read.
It accounts for the head itself just if the decoder looks at the mark or there is none. -/
theorem accounts_of_decode (decoder : Decoder) (head : Head) (cursor : Cursor)
    (instruction : Instruction) (next : Cursor)
    (h : (decoder.decode head).runAt cursor = (.ok instruction, next)) :
    instruction.opcode = head.opcode ∧ ∃ run, cursor.MovesOver run next ∧
      instruction.Accounts (decoder.heeded head) run ∧
      (instruction.Accounts head run ↔ (head.wide = true → decoder.heedsMark = true)) := by
  obtain ⟨hopcode, run, hmoves, hbytes⟩ := decode_eq_ok h
  refine ⟨hopcode, run, hmoves, Instruction.accounts_iff.mpr hbytes, ?_⟩
  rw [Instruction.accounts_iff, hbytes, List.append_left_inj, bytes_heeded_eq_iff]

/-- A store behind the mark, of which the decoder of stores takes account, and a small integer
behind it, of which its decoder takes none. -/
theorem accounts_of_decode_marked :
    (decode ⟨.fstore, true⟩ fstore).runAt ⟨2, [0x00, 0x07]⟩ =
        (.ok (.fstore (.wide 7)), ⟨4, []⟩) ∧
      Instruction.Accounts ⟨.fstore, true⟩ [0x00, 0x07] (.fstore (.wide 7)) ∧
      (decode ⟨.iconst1, true⟩ iconst).runAt ⟨2, [0x00]⟩ = (.ok (.iconst .one), ⟨2, [0x00]⟩) ∧
      ¬Instruction.Accounts ⟨.iconst1, true⟩ [] (.iconst .one) := by
  have hstore : (decode ⟨.fstore, true⟩ fstore).runAt ⟨2, [0x00, 0x07]⟩ =
      (.ok (.fstore (.wide 7)), ⟨4, []⟩) := rfl
  have hsmall : (decode ⟨.iconst1, true⟩ iconst).runAt ⟨2, [0x00]⟩ =
      (.ok (.iconst .one), ⟨2, [0x00]⟩) := rfl
  obtain ⟨-, run, hmoves, -, hiff⟩ := accounts_of_decode _ _ _ _ _ hstore
  obtain ⟨-, run', hmoves', -, hiff'⟩ := accounts_of_decode _ _ _ _ _ hsmall
  obtain rfl : [0x00, 0x07] = run := by simpa using hmoves.1
  obtain rfl : [] = run' := by simpa using hmoves'.1
  exact ⟨hstore, hiff.mpr fun _ => rfl, hsmall, fun h => Bool.false_ne_true (hiff'.mp h rfl)⟩

/-- **Not every decoder accounts for the mark**: a `bipush` that is decoded behind one is two bytes
long, where three were read. -/
theorem not_all_marks_accounted :
    ¬∀ (decoder : Decoder) (head : Head) (cursor : Cursor) (instruction : Instruction)
      (next : Cursor), (decoder.decode head).runAt cursor = (.ok instruction, next) →
        ∃ run, cursor.MovesOver run next ∧ instruction.Accounts head run := by
  intro hall
  obtain ⟨run, hmoves, haccounts⟩ :=
    hall bipush ⟨.bipush, true⟩ ⟨2, [0x05]⟩ (.bipush 5) ⟨3, []⟩ rfl
  obtain rfl : [0x05] = run := by simpa using hmoves.1
  exact absurd haccounts.length (by decide)

end Decoder

end Bytecode
