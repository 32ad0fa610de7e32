import Bytecode.Instruction.Writing

/-!
# What a buffer receives

A buffer takes every write, so a sequence of instructions leaves its bytes behind what the buffer
held before.

## Main results

* `Instruction.runAt_writeAll_buffer`: the bytes of the instructions, back to back
-/

namespace Bytecode.Instruction

theorem runAt_write_buffer (instruction : Instruction) (held : Array UInt8) :
    (instruction.write Sink.buffer).runAt held = (.ok (), held ++ instruction.bytes.toArray) := by
  rcases instruction with _ | _ | (_ | _) | (_ | _ | _) <;> rfl

/-- **A buffer receives the bytes** of the instructions, back to back. -/
theorem runAt_writeAll_buffer (instructions : List Instruction) (held : Array UInt8) :
    (writeAll Sink.buffer instructions).runAt held =
      (.ok (), held ++ (instructions.flatMap bytes).toArray) := by
  induction instructions generalizing held with
  | nil => simp [writeAll]
  | cons instruction rest ih =>
    rw [writeAll, Writer.runAt_bind_of_ok (runAt_write_buffer instruction held), ih]
    simp [Array.append_assoc]

end Bytecode.Instruction
