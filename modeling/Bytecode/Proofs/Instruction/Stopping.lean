import Bytecode.Proofs.Instruction.Refusal
import Bytecode.Proofs.Instruction.Written

/-!
# Where a read stops

A read that succeeds has passed over the bytes of the instruction and over nothing else, and only
these bytes matter to it. A read that fails has passed over some bytes too, but its cause tells how
many: it stands before the bytes that are too few, or behind the byte that is to blame. So whoever
goes on after a failure knows from where. A decoder, on the other hand, takes a whole operand or
nothing: when it fails, the cursor stands where it stood.

## Main definitions

* `Cursor.inside`: the cursor at a position in an array
* `Reader.AllOrNothing`: a failure leaves the cursor where it was

## Main results

* `Instruction.allOrNothing_decode`, `StoreOperand.allOrNothing_decode`: the decoders
* `Instruction.read_stops`: where a read stops, in success and in failure
-/

namespace Bytecode

/-! ## Cursors in an array -/

namespace Cursor

/-- **The cursor at a position** in an array. -/
def inside (bytes : List UInt8) (position : Nat) : Cursor := ⟨position, bytes.drop position⟩

variable {bytes run : List UInt8} {position : Nat} {next : Cursor}

/-- A run of bytes that a cursor moves over is what stands at its position. -/
theorem movesOver_inside_iff :
    (inside bytes position).MovesOver run next ↔
      (bytes.drop position).take run.length = run ∧
        next = inside bytes (position + run.length) := by
  constructor
  · rintro ⟨hrest, hposition⟩
    obtain ⟨position', rest⟩ := next
    have hdrop : bytes.drop position = run ++ rest := hrest
    obtain rfl : position' = position + run.length := hposition
    refine ⟨by rw [hdrop, List.take_left], ?_⟩
    rw [inside, ← List.drop_drop, hdrop, List.drop_left]
  · rintro ⟨hrun, rfl⟩
    refine ⟨?_, rfl⟩
    show bytes.drop position = run ++ bytes.drop (position + run.length)
    rw [← List.drop_drop]
    calc bytes.drop position
        = (bytes.drop position).take run.length ++ (bytes.drop position).drop run.length :=
          (List.take_append_drop _ _).symm
      _ = run ++ (bytes.drop position).drop run.length := by rw [hrun]

end Cursor

/-! ## Readers that take all or nothing -/

namespace Reader

variable {α β : Type} {reader : Reader α}

/-- **All or nothing**: a reader that fails leaves the cursor where it was. -/
def AllOrNothing (reader : Reader α) : Prop :=
  ∀ cursor e next, reader.runAt cursor = (.error e, next) → next = cursor

theorem allOrNothing_pure (a : α) : (pure a : Reader α).AllOrNothing := by
  intro cursor e next h
  cases h

theorem allOrNothing_byte : byte.AllOrNothing := by
  rintro ⟨position, _ | ⟨first, rest⟩⟩ e next h
  · cases h
    rfl
  · cases h

theorem allOrNothing_word : word.AllOrNothing := by
  rintro ⟨position, _ | ⟨hi, _ | ⟨lo, rest⟩⟩⟩ e next h
  · cases h
    rfl
  · cases h
    rfl
  · cases h

/-- A value that is made of another one is read all or nothing if this one is. -/
theorem AllOrNothing.bind_pure (h : reader.AllOrNothing) (make : α → β) :
    (reader >>= fun a => pure (make a)).AllOrNothing := by
  intro cursor e next hrun
  rw [runAt_bind] at hrun
  split at hrun
  · cases hrun
  · next hread =>
    cases hrun
    exact h _ _ _ hread

theorem allOrNothing_refuseOpcode (opcode : Opcode) :
    (refuseOpcode opcode : Reader α).AllOrNothing := by
  intro cursor e next h
  rw [refuseOpcode, runAt_bind_of_ok (runAt_position cursor)] at h
  cases h
  rfl

theorem allOrNothing_refuseWide (opcode : Opcode) :
    (refuseWide opcode : Reader α).AllOrNothing := by
  intro cursor e next h
  rw [refuseWide, runAt_bind_of_ok (runAt_position cursor)] at h
  cases h
  rfl

end Reader

open Reader

/-! ## The decoders -/

variable (head : Head)

theorem SmallInt.allOrNothing_decode : (SmallInt.decode head).AllOrNothing := by
  unfold SmallInt.decode
  split
  · exact allOrNothing_pure _
  · exact allOrNothing_refuseOpcode _

theorem ConstantRef.allOrNothing_decode : (ConstantRef.decode head).AllOrNothing := by
  unfold ConstantRef.decode
  split
  · exact allOrNothing_byte.bind_pure _
  · exact allOrNothing_word.bind_pure _
  · exact allOrNothing_refuseOpcode _

/-- **The decoder of stores** takes all or nothing, whatever the family. -/
theorem StoreOperand.allOrNothing_decode (family : StoreFamily) :
    (StoreOperand.decode family head).AllOrNothing := by
  unfold StoreOperand.decode
  split
  · split
    · exact allOrNothing_refuseWide _
    · exact allOrNothing_pure _
  · split
    · exact allOrNothing_refuseOpcode _
    · split
      · exact allOrNothing_word.bind_pure _
      · exact allOrNothing_byte.bind_pure _

namespace Instruction

theorem allOrNothing_decodeByte : (decodeByte head).AllOrNothing := by
  unfold decodeByte
  split
  · exact allOrNothing_byte.bind_pure _
  · exact allOrNothing_refuseOpcode _

theorem allOrNothing_decodeSlot : (decodeSlot head).AllOrNothing :=
  (StoreOperand.allOrNothing_decode head .float).bind_pure _

/-- **The decoder of all instructions** takes all or nothing. -/
theorem allOrNothing_decode : (decode head).AllOrNothing := by
  unfold decode
  split
  · exact allOrNothing_refuseWide _
  · split
    case h_8 => exact (allOrNothing_decodeByte head).bind_pure _
    case h_9 | h_10 => exact (ConstantRef.allOrNothing_decode head).bind_pure _
    case h_11 | h_12 | h_13 | h_14 | h_15 => exact (allOrNothing_decodeSlot head).bind_pure _
    case h_16 => exact allOrNothing_refuseWide _
    -- the opcodes of small integers
    all_goals exact (SmallInt.allOrNothing_decode head).bind_pure _

/-! ## Whole reads -/

variable {allowWide : Bool} {bytes : List UInt8} {position : Nat} {instruction : Instruction}
  {next : Cursor}

/-- **A read in an array** succeeds exactly where the bytes of an admitted instruction stand, and
stops behind them. -/
theorem read_inside_eq_ok_iff :
    (read allowWide).runAt (.inside bytes position) = (.ok instruction, next) ↔
      instruction.Admitted allowWide ∧
        (bytes.drop position).take instruction.length = instruction.bytes ∧
        next = .inside bytes (position + instruction.length) := by
  rw [runAt_read_eq_ok_iff, Cursor.movesOver_inside_iff, length_bytes]

/-- **A read that fails** stands in the same array, where its cause tells. -/
theorem read_inside_eq_error {e : DecodeError}
    (h : (read allowWide).runAt (.inside bytes position) = (.error e, next)) :
    ∃ stop, e.stop? = some stop ∧ next = .inside bytes stop := by
  have hfails : ((read allowWide).runAt ⟨position, bytes.drop position⟩).1 = .error e := by
    rw [← Cursor.inside, h]
  obtain ⟨taken, hstop, hread⟩ := exists_stop_of_refusal (read_eq_error_iff.mp hfails)
  refine ⟨position + taken, hstop, ?_⟩
  rw [← Cursor.inside, h] at hread
  cases hread
  rw [Cursor.inside, List.drop_drop]

/-- **Where a read stops**. In success it has passed over the one to four bytes that the
instruction is written with, and any array with these bytes, at any position, gives the same. In
failure its cause tells where it stands; no read is refused for the length of an array. A decoder
that fails has not moved, whatever opcode it was told and with a mark or without. -/
theorem read_stops (allowWide : Bool) (bytes : List UInt8) (position : Nat) :
    (∀ instruction next,
      (read allowWide).runAt (.inside bytes position) = (.ok instruction, next) →
        next = .inside bytes (position + instruction.length) ∧
        1 ≤ instruction.length ∧ instruction.length ≤ 4 ∧
        position + instruction.length ≤ bytes.length ∧
        (instruction.write Sink.buffer).runAt #[] =
          (.ok (), ((bytes.drop position).take instruction.length).toArray) ∧
        ∀ (others : List UInt8) (place : Nat),
          (others.drop place).take instruction.length =
              (bytes.drop position).take instruction.length →
            (read allowWide).runAt (.inside others place) =
              (.ok instruction, .inside others (place + instruction.length))) ∧
    (∀ e next, (read allowWide).runAt (.inside bytes position) = (.error e, next) →
      ∃ stop, e.stop? = some stop ∧ next = .inside bytes stop) ∧
    ∀ (head : Head) (family : StoreFamily),
      (decode head).AllOrNothing ∧ (SmallInt.decode head).AllOrNothing ∧
        (decodeByte head).AllOrNothing ∧ (ConstantRef.decode head).AllOrNothing ∧
        (decodeSlot head).AllOrNothing ∧ (StoreOperand.decode family head).AllOrNothing := by
  refine ⟨fun instruction next h => ?_, fun e next => read_inside_eq_error, fun head family =>
    ⟨allOrNothing_decode head, SmallInt.allOrNothing_decode head, allOrNothing_decodeByte head,
      ConstantRef.allOrNothing_decode head, allOrNothing_decodeSlot head,
      StoreOperand.allOrNothing_decode head family⟩⟩
  obtain ⟨hadmitted, hrun, hnext⟩ := read_inside_eq_ok_iff.mp h
  have hlength := congrArg List.length hrun
  rw [length_bytes, List.length_take, List.length_drop] at hlength
  have hpos := instruction.length_pos
  refine ⟨hnext, hpos, instruction.length_le, by omega, ?_, fun others place hothers => ?_⟩
  · rw [runAt_write_buffer, Array.empty_append, hrun]
  · exact read_inside_eq_ok_iff.mpr ⟨hadmitted, hothers.trans hrun, rfl⟩

/-- A marked store, the same one in another array, a marked `bipush` behind it, and a decoder that
finds one byte of two. -/
theorem read_stops_marked :
    (read true).runAt (.inside [0x05, 0xC4, 0x38, 0x01, 0x00, 0xC4, 0x10] 1) =
        (.ok (fstore (.wide 256)), .inside [0x05, 0xC4, 0x38, 0x01, 0x00, 0xC4, 0x10] 5) ∧
      ((fstore (.wide 256)).write Sink.buffer).runAt #[] =
        (.ok (), #[0xC4, 0x38, 0x01, 0x00]) ∧
      (read true).runAt (.inside [0xC4, 0x38, 0x01, 0x00] 0) =
        (.ok (fstore (.wide 256)), .inside [0xC4, 0x38, 0x01, 0x00] 4) ∧
      (∃ next, (read true).runAt (.inside [0x05, 0xC4, 0x38, 0x01, 0x00, 0xC4, 0x10] 5) =
          (.error (.illegalWide 0x10 6), next) ∧
        next = .inside [0x05, 0xC4, 0x38, 0x01, 0x00, 0xC4, 0x10] 7) ∧
      ∃ next, (decode ⟨.fstore, true⟩).runAt ⟨2, [0x01]⟩ =
          (.error (.unexpectedEnd 2 2 1), next) ∧ next = ⟨2, [0x01]⟩ := by
  have hstore : (read true).runAt (.inside [0x05, 0xC4, 0x38, 0x01, 0x00, 0xC4, 0x10] 1) =
      (.ok (fstore (.wide 256)), .inside [0x05, 0xC4, 0x38, 0x01, 0x00, 0xC4, 0x10] 5) := rfl
  obtain ⟨hok, herror, hdecode⟩ := read_stops true [0x05, 0xC4, 0x38, 0x01, 0x00, 0xC4, 0x10] 1
  obtain ⟨-, -, -, -, hwrite, hothers⟩ := hok _ _ hstore
  refine ⟨hstore, hwrite, hothers _ 0 rfl, ⟨_, rfl, ?_⟩, _, rfl, ?_⟩
  · obtain ⟨stop, hstop, hnext⟩ :=
      (read_stops true [0x05, 0xC4, 0x38, 0x01, 0x00, 0xC4, 0x10] 5).2.1 _ _ rfl
    cases hstop
    exact hnext
  · exact (hdecode ⟨.fstore, true⟩ .float).1 _ _ _ rfl

end Instruction

end Bytecode
