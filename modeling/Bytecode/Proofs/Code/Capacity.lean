import Bytecode.Code
import Bytecode.Proofs.Instruction.Written

/-!
# What a full sink holds

A sink of fixed capacity may end a write in the middle of an instruction, and even in the middle of
a word: one sink takes a word as two bytes, another as one run of which it keeps what fits. Either
way it holds the beginning of what was to be written, and it fails exactly if that is not all. The
law is one on writers: it holds of the single writes of each sink, and of one writer after another
if it holds of both.

## Main definitions

* `Writer.Fills`: a writer adds a run of bytes as far as it fits
* `Sink.FillsUp`: all writes of a sink do
* `WritingWay`: the ways to write instructions

## Main results

* `Writer.Fills.bind`: one writer after another
* `Sink.fillsUp_bounded`, `Sink.fillsUp_region`, `Sink.FillsUp.borrowed`: the sinks that fill up
* `Instruction.fills_writeAll`: instructions are added as far as they fit
* `WritingWay.runAt_write_capacity`: a sink of fixed capacity holds the beginning of the bytes
-/

namespace Bytecode

/-! ## Writers that add a run of bytes -/

namespace Writer

variable {ε : Type} {capacity : Nat} {refusal : ε}

/-- **A writer adds a run of bytes** behind what is held, as far as it fits into the capacity, and
fails exactly if it does not fit. -/
def Fills (capacity : Nat) (refusal : ε) (writer : Writer (Array UInt8) ε Unit)
    (run : List UInt8) : Prop :=
  ∀ held : List UInt8, held.length ≤ capacity →
    writer.runAt held.toArray =
      (if capacity < (held ++ run).length then .error refusal else .ok (),
        ((held ++ run).take capacity).toArray)

theorem fills_pure : (pure () : Writer (Array UInt8) ε Unit).Fills capacity refusal [] := by
  intro held hheld
  rw [runAt_pure, List.append_nil, if_neg (Nat.not_lt.mpr hheld), List.take_of_length_le hheld]

/-- **One writer after another** adds both runs. If the first does not fit, the second is not
reached, and would not have been held. -/
theorem Fills.bind {first second : Writer (Array UInt8) ε Unit} {run run' : List UInt8}
    (h : first.Fills capacity refusal run) (h' : second.Fills capacity refusal run') :
    Fills capacity refusal (do first; second) (run ++ run') := by
  intro held hheld
  rw [runAt_bind, h held hheld, ← List.append_assoc]
  by_cases hfull : capacity < (held ++ run).length
  · have hlonger : capacity < (held ++ run ++ run').length := by
      rw [List.length_append]
      exact Nat.lt_add_right _ hfull
    rw [if_pos hfull, if_pos hlonger, List.take_append_of_le_length (Nat.le_of_lt hfull)]
  · have hfits : (held ++ run).length ≤ capacity := Nat.le_of_not_lt hfull
    rw [if_neg hfull, List.take_of_length_le hfits]
    exact h' (held ++ run) hfits

end Writer

/-! ## Sinks that fill up -/

namespace Sink

variable {ε : Type} {capacity : Nat} {refusal : ε}

/-- **All writes of a sink** add their bytes as far as they fit. -/
structure FillsUp (capacity : Nat) (refusal : ε) (sink : Sink (Array UInt8) ε) : Prop where
  byte : ∀ value, (sink.byte value).Fills capacity refusal [value]
  signed : ∀ value, (sink.signed value).Fills capacity refusal [value.toUInt8]
  word : ∀ value, (sink.word value).Fills capacity refusal [Word.high value, Word.low value]

theorem fills_byte_bounded (capacity : Nat) (value : UInt8) :
    ((bounded capacity).byte value).Fills capacity .full [value] := by
  intro held hheld
  rw [runAt_byte_bounded, List.size_toArray, List.length_append, List.length_singleton]
  by_cases hroom : held.length < capacity
  · have hfits : (held ++ [value]).length ≤ capacity := by
      rw [List.length_append]
      exact hroom
    rw [if_pos hroom, if_neg (Nat.not_lt.mpr hroom), List.take_of_length_le hfits,
      List.push_toArray]
  · have hlength : held.length = capacity := Nat.le_antisymm hheld (Nat.le_of_not_lt hroom)
    have hfull : capacity < held.length + 1 := Nat.lt_succ_of_le (Nat.le_of_eq hlength.symm)
    rw [if_neg hroom, if_pos hfull, ← hlength, List.take_left]

/-- **The bounded sink** fills up byte by byte. -/
theorem fillsUp_bounded (capacity : Nat) : FillsUp capacity .full (bounded capacity) where
  byte := fills_byte_bounded capacity
  signed value := fills_byte_bounded capacity value.toUInt8
  word _ := (fills_byte_bounded capacity _).bind (fills_byte_bounded capacity _)

theorem fills_writeRun (capacity : Nat) (run : List UInt8) :
    (writeRun capacity run).Fills capacity .shortWrite run := by
  intro held hheld
  have hroom : capacity - held.length < run.length ↔ capacity < (held ++ run).length := by
    rw [List.length_append]
    exact Nat.sub_lt_iff_lt_add' hheld
  rw [runAt_writeRun, List.size_toArray, List.append_toArray, List.take_append,
    List.take_of_length_le hheld]
  simp only [hroom]

/-- **The region** fills up run by run, and a run may be cut. -/
theorem fillsUp_region (capacity : Nat) : FillsUp capacity .shortWrite (region capacity) where
  byte value := fills_writeRun capacity [value]
  signed value := fills_writeRun capacity [value.toUInt8]
  word value := fills_writeRun capacity [Word.high value, Word.low value]

/-- **A borrowed sink** fills up as its owner does. -/
theorem FillsUp.borrowed {sink : Sink (Array UInt8) ε} (h : sink.FillsUp capacity refusal) :
    sink.borrowed.FillsUp capacity refusal where
  byte := h.byte
  signed value := h.byte value.toUInt8
  word := h.word

end Sink

/-! ## Instructions -/

namespace Instruction

section Fills

variable {ε : Type} {capacity : Nat} {refusal : ε} {sink : Sink (Array UInt8) ε}

theorem fills_write (h : sink.FillsUp capacity refusal) (instruction : Instruction) :
    (instruction.write sink).Fills capacity refusal instruction.bytes := by
  rcases instruction with value | value | (index | index) | (slot | slot | slot)
  case iconst => exact h.byte _
  case bipush => exact (h.byte _).bind (h.signed _)
  case ldc.short => exact (h.byte _).bind (h.byte _)
  case ldc.long => exact (h.byte _).bind (h.word _)
  case fstore.compact => exact h.byte _
  case fstore.byte => exact (h.byte _).bind (h.byte _)
  case fstore.wide => exact (h.byte _).bind ((h.byte _).bind (h.word _))

/-- **Instructions are added as far as they fit**, back to back. -/
theorem fills_writeAll (h : sink.FillsUp capacity refusal) (instructions : List Instruction) :
    (writeAll sink instructions).Fills capacity refusal (instructions.flatMap bytes) := by
  induction instructions with
  | nil => exact Writer.fills_pure
  | cons instruction rest ih => exact (fills_write h instruction).bind ih

end Fills

theorem forM_write_eq_writeAll {σ ε : Type} (sink : Sink σ ε) (instructions : List Instruction) :
    (instructions.forM fun instruction => instruction.write sink) = writeAll sink instructions := by
  induction instructions with
  | nil => rfl
  | cons instruction rest ih =>
    show (do instruction.write sink; rest.forM fun instruction => instruction.write sink) = _
    rw [ih]
    rfl

end Instruction

/-! ## The ways to write instructions -/

/-- **The ways to write instructions** into a sink. -/
inductive WritingWay where
  -- each instruction by itself, up to the first that fails
  | each
  -- laid out as code
  | code
  | sequence
  -- as a sequence, into a sink that is only lent
  | lent
  deriving DecidableEq

namespace WritingWay

/-- The writes of instructions in one of the ways. -/
def write {σ ε : Type} (sink : Sink σ ε) (instructions : List Instruction) :
    WritingWay → Writer σ ε Unit
  | each => instructions.forM fun instruction => instruction.write sink
  | code => (Code.ofInstructions instructions).write sink
  | sequence => Instruction.writeAll sink instructions
  | lent => Instruction.writeAll sink.borrowed instructions

theorem fills_write {ε : Type} {capacity : Nat} {refusal : ε} {sink : Sink (Array UInt8) ε}
    (h : sink.FillsUp capacity refusal) (instructions : List Instruction) (way : WritingWay) :
    (way.write sink instructions).Fills capacity refusal
      (instructions.flatMap Instruction.bytes) := by
  cases way with
  | each =>
    rw [write, Instruction.forM_write_eq_writeAll]
    exact Instruction.fills_writeAll h instructions
  | code =>
    rw [write, Code.write, Code.instructions_ofInstructions]
    exact Instruction.fills_writeAll h instructions
  | sequence => exact Instruction.fills_writeAll h instructions
  | lent => exact Instruction.fills_writeAll h.borrowed instructions

/-- **A sink of fixed capacity holds the beginning of the bytes** that a buffer receives, and it
fails exactly if these are more. Neither the way of writing nor the sink makes a difference. The
instructions may be any, since each can be obtained (`Instruction.obtainable`). -/
theorem runAt_write_capacity (instructions : List Instruction) (capacity : Nat) :
    ∃ encoding : List UInt8,
      (Instruction.writeAll Sink.buffer instructions).runAt #[] = (.ok (), encoding.toArray) ∧
      ∀ way : WritingWay,
        (way.write (Sink.bounded capacity) instructions).runAt #[] =
          (if capacity < encoding.length then .error .full else .ok (),
            (encoding.take capacity).toArray) ∧
        (way.write (Sink.region capacity) instructions).runAt #[] =
          (if capacity < encoding.length then .error .shortWrite else .ok (),
            (encoding.take capacity).toArray) := by
  refine ⟨instructions.flatMap Instruction.bytes, ?_, fun way => ⟨?_, ?_⟩⟩
  · rw [Instruction.runAt_writeAll_buffer, Array.empty_append]
  · exact fills_write (Sink.fillsUp_bounded capacity) instructions way [] (Nat.zero_le _)
  · exact fills_write (Sink.fillsUp_region capacity) instructions way [] (Nat.zero_le _)

/-- A word is cut in the middle. -/
example :
    (lent.write (Sink.region 3) [.iconst .one, .ldc (.long 300)]).runAt #[] =
      (.error .shortWrite, #[0x04, 0x13, 0x01]) := by
  rfl

end WritingWay

end Bytecode
