import Bytecode.Instruction.Reading

/-!
# What reading an instruction consumes

A decoder that succeeds has moved over the operand of the instruction it gives, and a whole read
over the bytes of the instruction, in the very form they were written in.

## Main results

* `Instruction.decode_eq_ok`: a decoder moves over the operand
* `Instruction.movesOver_of_read`: a read moves over the bytes of the instruction
-/

namespace Bytecode

open Reader

/-- The bytes of a head: the mark, if there is one, and the opcode. -/
def Head.bytes (head : Head) : List UInt8 :=
  (if head.wide then [Opcode.wide.toByte] else []) ++ [head.opcode.toByte]

theorem Head.length_bytes (head : Head) : head.bytes.length = if head.wide then 2 else 1 := by
  rcases head with ⟨opcode, _ | _⟩ <;> rfl

theorem Head.bytes_of_not_wide {head : Head} (h : head.wide = false) :
    head.bytes = [head.opcode.toByte] := by
  simp [Head.bytes, h]

theorem Reader.runAt_refuseOpcode_ne_ok {α : Type} {opcode : Opcode} {cursor next : Cursor} {a : α}
    (h : (refuseOpcode opcode).runAt cursor = (.ok a, next)) : False := by
  simp [refuseOpcode, runAt_bind] at h

theorem Reader.runAt_refuseWide_ne_ok {α : Type} {opcode : Opcode} {cursor next : Cursor} {a : α}
    (h : (refuseWide opcode).runAt cursor = (.ok a, next)) : False := by
  simp [refuseWide, runAt_bind] at h

/-- **Reading an opcode** moves over its byte. -/
theorem Reader.movesOver_of_opcode {cursor next : Cursor} {op : Opcode}
    (h : Reader.opcode.runAt cursor = (.ok op, next)) : cursor.MovesOver [op.toByte] next := by
  unfold Reader.opcode at h
  obtain ⟨_, _, hpos, h⟩ := runAt_bind_eq_ok h
  simp only [runAt_position, Prod.mk.injEq, Except.ok.injEq] at hpos
  obtain ⟨-, rfl⟩ := hpos
  obtain ⟨first, _, hbyte, h⟩ := runAt_bind_eq_ok h
  split at h
  · next found hfound =>
    simp only [runAt_pure, Prod.mk.injEq, Except.ok.injEq] at h
    obtain ⟨rfl, rfl⟩ := h
    rw [Opcode.ofByte?_eq_some_iff.mp hfound]
    exact movesOver_of_byte hbyte
  · simp at h

theorem SmallInt.decode_eq_ok {head : Head} {cursor next : Cursor} {value : SmallInt}
    (h : (SmallInt.decode head).runAt cursor = (.ok value, next)) :
    value.opcode = head.opcode ∧ next = cursor := by
  unfold SmallInt.decode at h
  split at h
  · next found hfound =>
    simp only [runAt_pure, Prod.mk.injEq, Except.ok.injEq] at h
    obtain ⟨rfl, rfl⟩ := h
    exact ⟨SmallInt.ofOpcode?_eq_some_iff.mp hfound, rfl⟩
  · exact (runAt_refuseOpcode_ne_ok h).elim

theorem Instruction.decodeByte_eq_ok {head : Head} {cursor next : Cursor} {value : Int8}
    (h : (Instruction.decodeByte head).runAt cursor = (.ok value, next)) :
    head.opcode = .bipush ∧ cursor.MovesOver [value.toUInt8] next := by
  unfold Instruction.decodeByte at h
  split at h
  · next hop =>
    obtain ⟨first, hbyte, rfl⟩ := runAt_bind_pure_eq_ok h
    exact ⟨hop, by simpa using movesOver_of_byte hbyte⟩
  · exact (runAt_refuseOpcode_ne_ok h).elim

theorem ConstantRef.decodeLong_eq_ok {cursor next : Cursor} {ref : ConstantRef}
    (h : ConstantRef.decodeLong.runAt cursor = (.ok ref, next)) :
    ref.opcode = .ldcW ∧
      ∃ operand, ref.bytes = Opcode.ldcW.toByte :: operand ∧ cursor.MovesOver operand next := by
  obtain ⟨index, hword, rfl⟩ := runAt_bind_pure_eq_ok h
  exact ⟨rfl, _, rfl, movesOver_of_word hword⟩

theorem ConstantRef.decode_eq_ok {head : Head} {cursor next : Cursor} {ref : ConstantRef}
    (h : (ConstantRef.decode head).runAt cursor = (.ok ref, next)) :
    ref.opcode = head.opcode ∧
      ∃ operand, ref.bytes = head.opcode.toByte :: operand ∧ cursor.MovesOver operand next := by
  unfold ConstantRef.decode at h
  split at h
  · next hop =>
    obtain ⟨index, hbyte, rfl⟩ := runAt_bind_pure_eq_ok h
    rw [hop]
    exact ⟨rfl, _, rfl, movesOver_of_byte hbyte⟩
  · next hop =>
    rw [hop]
    exact decodeLong_eq_ok h
  · exact (runAt_refuseOpcode_ne_ok h).elim

/-- **The decoder of stores** gives an operand of the family asked for, and moves over what
follows the head in the bytes of the operand. -/
theorem StoreOperand.decode_eq_ok {family : StoreFamily} {head : Head} {cursor next : Cursor}
    {operand : StoreOperand}
    (h : (StoreOperand.decode family head).runAt cursor = (.ok operand, next)) :
    operand.family = family ∧ operand.opcode = head.opcode ∧
      ∃ run, operand.bytes = head.bytes ++ run ∧ cursor.MovesOver run next := by
  rcases head with ⟨opcode, wide⟩
  unfold StoreOperand.decode at h
  simp only at h
  split at h
  · next slot hslot =>
    split at h
    · exact (runAt_refuseWide_ne_ok h).elim
    · next hwide =>
      simp only [runAt_pure, Prod.mk.injEq, Except.ok.injEq] at h
      obtain ⟨rfl, rfl⟩ := h
      have hop := StoreFamily.compactOpcode_of_compactSlot? hslot
      exact ⟨rfl, hop, [], by simp [StoreOperand.bytes, Head.bytes, hop, hwide], .refl _⟩
  · split at h
    · exact (runAt_refuseOpcode_ne_ok h).elim
    · next hop =>
      have hop : opcode = family.generic := Decidable.not_not.mp hop
      split at h
      · next hwide =>
        obtain ⟨slot, hword, rfl⟩ := runAt_bind_pure_eq_ok h
        refine ⟨rfl, hop.symm, [Word.high slot, Word.low slot], ?_, movesOver_of_word hword⟩
        simp [StoreOperand.bytes, Head.bytes, hop, hwide]
      · next hwide =>
        obtain ⟨slot, hbyte, rfl⟩ := runAt_bind_pure_eq_ok h
        refine ⟨rfl, hop.symm, [slot], ?_, movesOver_of_byte hbyte⟩
        simp [StoreOperand.bytes, Head.bytes, hop, hwide]

theorem Instruction.decodeSlot_eq_ok {head : Head} {cursor next : Cursor} {slot : Slot}
    (h : (Instruction.decodeSlot head).runAt cursor = (.ok slot, next)) :
    (Instruction.fstore slot).opcode = head.opcode ∧
      ∃ run, (Instruction.fstore slot).bytes = head.bytes ++ run ∧ cursor.MovesOver run next := by
  obtain ⟨operand, hdecode, rfl⟩ := runAt_bind_pure_eq_ok h
  obtain ⟨hfamily, hop, hrest⟩ := StoreOperand.decode_eq_ok hdecode
  have : Instruction.floatOperand operand.slot = operand := by
    rw [Instruction.floatOperand, ← hfamily]
  simp only [Instruction.opcode, Instruction.bytes, this]
  exact ⟨hop, hrest⟩

/-- **The decoder of all instructions** gives an instruction with the opcode of the head, and
moves over what follows the head in its bytes. -/
theorem Instruction.decode_eq_ok {head : Head} {cursor next : Cursor} {instruction : Instruction}
    (h : (Instruction.decode head).runAt cursor = (.ok instruction, next)) :
    instruction.opcode = head.opcode ∧
      ∃ run, instruction.bytes = head.bytes ++ run ∧ cursor.MovesOver run next := by
  unfold Instruction.decode at h
  split at h
  · exact (runAt_refuseWide_ne_ok h).elim
  · next hwide =>
    have hmark : head.opcode ≠ .fstore → head.bytes = [head.opcode.toByte] := fun hop =>
      Head.bytes_of_not_wide (by simpa [hop] using hwide)
    split at h
    -- the opcodes of small integers: nothing follows the head
    case h_1 | h_2 | h_3 | h_4 | h_5 | h_6 | h_7 =>
      next hop =>
      obtain ⟨value, hdecode, rfl⟩ := runAt_bind_pure_eq_ok h
      obtain ⟨hvalue, rfl⟩ := SmallInt.decode_eq_ok hdecode
      refine ⟨hvalue, [], ?_, .refl _⟩
      rw [hmark (by simp [hop]), ← hvalue]
      rfl
    -- `bipush`
    case h_8 =>
      next hop =>
      obtain ⟨value, hdecode, rfl⟩ := runAt_bind_pure_eq_ok h
      refine ⟨hop.symm, [value.toUInt8], ?_, (Instruction.decodeByte_eq_ok hdecode).2⟩
      rw [hmark (by simp [hop]), hop]
      rfl
    -- the two forms of a reference to a constant
    case h_9 | h_10 =>
      next hop =>
      obtain ⟨ref, hdecode, rfl⟩ := runAt_bind_pure_eq_ok h
      obtain ⟨href, run, hbytes, hmoves⟩ := ConstantRef.decode_eq_ok hdecode
      refine ⟨href, run, ?_, hmoves⟩
      rw [hmark (by simp [hop])]
      exact hbytes
    -- the mark itself
    case h_16 => exact (runAt_refuseWide_ne_ok h).elim
    -- the stores
    all_goals
      obtain ⟨slot, hdecode, rfl⟩ := runAt_bind_pure_eq_ok h
      exact Instruction.decodeSlot_eq_ok hdecode

/-- **A read moves over the bytes of the instruction it gives**. -/
theorem Instruction.movesOver_of_read {allowWide : Bool} {cursor next : Cursor}
    {instruction : Instruction}
    (h : (Instruction.read allowWide).runAt cursor = (.ok instruction, next)) :
    cursor.MovesOver instruction.bytes next := by
  unfold Instruction.read at h
  obtain ⟨_, _, hpos, h⟩ := runAt_bind_eq_ok h
  simp only [runAt_position, Prod.mk.injEq, Except.ok.injEq] at hpos
  obtain ⟨-, rfl⟩ := hpos
  obtain ⟨first, _, hfirst, h⟩ := runAt_bind_eq_ok h
  have hfirst := movesOver_of_opcode hfirst
  split at h
  · next hmark =>
    subst hmark
    split at h
    · obtain ⟨opcode, _, hsecond, h⟩ := runAt_bind_eq_ok h
      split at h
      · next hop =>
        obtain ⟨-, run, hbytes, hmoves⟩ := Instruction.decode_eq_ok h
        rw [hbytes]
        exact (hfirst.trans (movesOver_of_opcode hsecond)).trans hmoves
      · simp at h
    · simp at h
  · obtain ⟨-, run, hbytes, hmoves⟩ := Instruction.decode_eq_ok h
    rw [hbytes]
    exact hfirst.trans hmoves

/-- A read that succeeds leaves fewer bytes. -/
theorem Instruction.length_rest_of_read {allowWide : Bool} {cursor next : Cursor}
    {instruction : Instruction}
    (h : (Instruction.read allowWide).runAt cursor = (.ok instruction, next)) :
    next.rest.length < cursor.rest.length := by
  have hpos := instruction.length_pos
  rw [(movesOver_of_read h).1, List.length_append, Instruction.length_bytes]
  omega

end Bytecode
