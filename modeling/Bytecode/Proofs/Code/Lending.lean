import Bytecode.Instruction.Writing
import Mathlib.Data.Set.Defs

/-!
# Sinks that are lent

Instructions may be written into a sink that is only lent. A borrowed sink hands bytes and words on
to its owner, but it has no way to hand on a signed byte, and gives the owner the byte with the same
bits. Only one instruction has a signed byte, behind its opcode. So lending makes no difference to
any other instruction; and to this one it makes none just if the owner, once it has accepted the
opcode, treats the signed byte and the byte alike.

## Main definitions

* `Sink.TakesAsByte`: a signed byte behind its opcode is taken as the byte with the same bits
* `Sink.signedCounter`: a sink that tells signed bytes from bytes

## Main results

* `Instruction.write_borrowed`: only the writes of a `bipush` change when the sink is lent
* `Instruction.runAt_write_bipush_borrowed_iff`: and when these do not change
* `Instruction.writeAll_lent_iff`: which instructions are written alike when the sink is lent
-/

namespace Bytecode

variable {σ ε : Type} {sink : Sink σ ε}

namespace Sink

/-- **A signed byte is taken as a byte**: where the sink has accepted the opcode of `bipush`, both
writes have the same result and leave the same state. -/
def TakesAsByte (sink : Sink σ ε) (value : Int8) : Prop :=
  ∀ state state', (sink.byte Opcode.bipush.toByte).runAt state = (.ok (), state') →
    (sink.signed value).runAt state' = (sink.byte value.toUInt8).runAt state'

theorem TakesAsByte.of_signed_eq {value : Int8} (h : sink.signed value = sink.byte value.toUInt8) :
    sink.TakesAsByte value := by
  intro _ state' _
  rw [h]

/-- A sink that counts the signed bytes it is given, and forgets everything else. -/
def signedCounter : Sink Nat Empty where
  byte _ := pure ()
  signed _ := modify (· + 1)
  word _ := pure ()

end Sink

namespace Instruction

/-- **Only the writes of a `bipush`** change when the sink is lent. -/
theorem write_borrowed {instruction : Instruction} (h : ∀ value, instruction ≠ bipush value) :
    instruction.write sink.borrowed = instruction.write sink := by
  rcases instruction with value | value | (index | index) | (slot | slot | slot)
  case bipush => exact absurd rfl (h value)
  all_goals rfl

/-- The writes of a `bipush` into a sink that is lent do the same for every state of the sink, just
if its signed byte is taken as a byte. -/
theorem runAt_write_bipush_borrowed_iff {value : Int8} :
    (∀ state, ((bipush value).write sink.borrowed).runAt state =
      ((bipush value).write sink).runAt state) ↔ sink.TakesAsByte value := by
  have hlent (state : σ) : ((bipush value).write sink.borrowed).runAt state =
      Writer.runAt (do sink.byte Opcode.bipush.toByte; sink.byte value.toUInt8) state := rfl
  have hdirect (state : σ) : ((bipush value).write sink).runAt state =
      Writer.runAt (do sink.byte Opcode.bipush.toByte; sink.signed value) state := rfl
  constructor
  · intro h state state' hopcode
    have hsame := h state
    rw [hlent, hdirect, Writer.runAt_bind_of_ok hopcode, Writer.runAt_bind_of_ok hopcode] at hsame
    exact hsame.symm
  · intro h state
    rw [hlent, hdirect, Writer.runAt_bind, Writer.runAt_bind]
    -- a sink that refuses the opcode is given no operand
    split
    · next state' hopcode => exact (h state state' hopcode).symm
    · rfl

/-- A sequence is written alike into two sinks if each of its instructions is. -/
theorem runAt_writeAll_congr {other : Sink σ ε} {instructions : List Instruction}
    (h : ∀ instruction ∈ instructions, ∀ state,
      (instruction.write sink).runAt state = (instruction.write other).runAt state) (state : σ) :
    (writeAll sink instructions).runAt state = (writeAll other instructions).runAt state := by
  induction instructions generalizing state with
  | nil => rfl
  | cons instruction rest ih =>
    obtain ⟨hfirst, hrest⟩ := List.forall_mem_cons.mp h
    rw [writeAll, writeAll, Writer.runAt_bind, Writer.runAt_bind, hfirst state]
    split
    · exact ih hrest _
    · rfl

theorem runAt_writeAll_singleton (instruction : Instruction) (state : σ) :
    (writeAll sink [instruction]).runAt state = (instruction.write sink).runAt state := by
  rw [writeAll, writeAll, Writer.runAt_bind]
  split
  · next hwrite => exact hwrite.symm
  · next hwrite => exact hwrite.symm

theorem runAt_writeAll_borrowed {instructions : List Instruction}
    (h : ∀ value, bipush value ∈ instructions → sink.TakesAsByte value) (state : σ) :
    (writeAll sink.borrowed instructions).runAt state =
      (writeAll sink instructions).runAt state := by
  refine runAt_writeAll_congr (fun instruction hmem => ?_) state
  by_cases hpush : ∃ value, instruction = bipush value
  · obtain ⟨value, rfl⟩ := hpush
    exact runAt_write_bipush_borrowed_iff.mpr (h value hmem)
  · intro state
    rw [write_borrowed (not_exists.mp hpush)]

/-- **Writing into a sink that is lent**, of any supply of instructions: every sequence of them ends
with the same result and leaves the same state as in the sink itself, exactly if the sink takes as
bytes the signed bytes in the supply. So it does for every sink where no `bipush` is supplied. -/
theorem writeAll_lent_iff (sink : Sink σ ε) (supply : Set Instruction) :
    (∀ instructions : List Instruction, (∀ instruction ∈ instructions, instruction ∈ supply) →
      ∀ state, (writeAll sink.borrowed instructions).runAt state =
        (writeAll sink instructions).runAt state) ↔
      ∀ value, bipush value ∈ supply → sink.TakesAsByte value := by
  constructor
  · intro h value hvalue
    refine runAt_write_bipush_borrowed_iff.mp fun state => ?_
    have hsame := h [bipush value] (by simpa using hvalue) state
    rwa [runAt_writeAll_singleton, runAt_writeAll_singleton] at hsame
  · intro h instructions hsupply state
    exact runAt_writeAll_borrowed (fun value hmem => h value (hsupply _ hmem)) state

/-- **Not every sink can be lent** without a difference: one that counts signed bytes misses the
operand of a `bipush`. -/
theorem not_lent_alike :
    ¬∀ (σ ε : Type) (sink : Sink σ ε) (instructions : List Instruction) (state : σ),
      (writeAll sink.borrowed instructions).runAt state =
        (writeAll sink instructions).runAt state := by
  intro hall
  have hsame : (Except.ok (), 0) = (Except.ok (), 1) :=
    hall Nat Empty Sink.signedCounter [bipush (-1)] 0
  cases hsame

/-- A sink with no way of its own to write signed bytes can be lent. -/
example (capacity : Nat) (instructions : List Instruction) (held : Array UInt8) :
    (writeAll (Sink.region capacity).borrowed instructions).runAt held =
      (writeAll (Sink.region capacity) instructions).runAt held :=
  runAt_writeAll_borrowed (fun _ _ => .of_signed_eq rfl) held

end Instruction

end Bytecode
