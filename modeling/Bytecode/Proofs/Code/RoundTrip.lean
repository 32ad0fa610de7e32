import Bytecode.Proofs.Code.Decoding
import Bytecode.Proofs.Instruction.Written

/-!
# Decoding and encoding are inverse

An array that is decoded and written again is the same array, and instructions that are written
and decoded again are the same instructions at the same offsets. Neither side has a normal form:
an index or a slot that fits a shorter form keeps the form it has, in both directions.

## Main results

* `Code.write_of_decode`: decoded code is written back byte for byte
* `Code.decode_of_writeAll`: written instructions are decoded as they were
-/

namespace Bytecode.Code

theorem bytes_ofInstructions (instructions : List Instruction) :
    (ofInstructions instructions).bytes = instructions.flatMap Instruction.bytes := by
  rw [bytes, instructions_ofInstructions]

theorem bytes_of_decode {options : DecodeOptions} {bytes : List UInt8} {code : Code}
    (h : decode options bytes = .ok code) : code.bytes = bytes := by
  obtain ⟨-, instructions, -, rfl, rfl⟩ := decode_eq_ok_iff.mp h
  exact bytes_ofInstructions instructions

/-- **Decoded code is written back byte for byte**, behind whatever the buffer held, both as code
and as a sequence of instructions; and it is as long as the array was. -/
theorem write_of_decode {options : DecodeOptions} {bytes : List UInt8} {code : Code}
    (h : decode options bytes = .ok code) (held : Array UInt8) :
    (code.write Sink.buffer).runAt held = (.ok (), held ++ bytes.toArray) ∧
      (Instruction.writeAll Sink.buffer code.instructions).runAt held =
        (.ok (), held ++ bytes.toArray) ∧
      code.byteLength = bytes.length := by
  have hbytes : code.instructions.flatMap Instruction.bytes = bytes := bytes_of_decode h
  have hwrite : (Instruction.writeAll Sink.buffer code.instructions).runAt held =
      (.ok (), held ++ bytes.toArray) := by
    rw [Instruction.runAt_writeAll_buffer, hbytes]
  refine ⟨hwrite, hwrite, ?_⟩
  rw [← length_bytes, bytes_of_decode h]

/-- A reference, a slot in one byte and a slot after the mark, each in a longer form than its
index needs. -/
theorem write_of_decode_longer_forms :
    decode {} [0x13, 0x00, 0x09, 0x38, 0x02, 0xC4, 0x38, 0x00, 0x07] =
        .ok (ofInstructions [.ldc (.long 9), .fstore (.byte 2), .fstore (.wide 7)]) ∧
      ((ofInstructions [.ldc (.long 9), .fstore (.byte 2), .fstore (.wide 7)]).write
          Sink.buffer).runAt #[] =
        (.ok (), #[0x13, 0x00, 0x09, 0x38, 0x02, 0xC4, 0x38, 0x00, 0x07]) := by
  have h : decode {} [0x13, 0x00, 0x09, 0x38, 0x02, 0xC4, 0x38, 0x00, 0x07] =
      .ok (ofInstructions [.ldc (.long 9), .fstore (.byte 2), .fstore (.wide 7)]) :=
    decode_eq_ok_iff.mpr ⟨by decide, _, fun _ _ _ => rfl, rfl, rfl⟩
  exact ⟨h, (write_of_decode h #[]).1⟩

/-- **Written instructions are decoded as they were**: in the same order, in the same forms and
laid out at the same offsets. They may be any instructions, since each one can be obtained
(`Instruction.obtainable`). -/
theorem decode_of_writeAll (options : DecodeOptions) (instructions : List Instruction)
    (hwide : options.allowWide = true)
    (hlength : (instructions.map Instruction.length).sum ≤ options.maxCodeLength) :
    ∃ written : Array UInt8,
      (Instruction.writeAll Sink.buffer instructions).runAt #[] = (.ok (), written) ∧
        decode options written.toList = .ok (ofInstructions instructions) := by
  refine ⟨_, Instruction.runAt_writeAll_buffer instructions #[], ?_⟩
  rw [Array.empty_append, List.toList_toArray]
  rw [← length_flatMap_bytes] at hlength
  exact decode_flatMap (fun _ _ _ => hwide) hlength

/-- Instructions in forms of every length, with a limit that they just meet. -/
theorem decode_of_writeAll_exact_limit :
    (([.fstore (.wide 3), .ldc (.long 255), .bipush (-128), .iconst .minusOne] :
        List Instruction).map Instruction.length).sum ≤ 10 ∧
      ∃ written : Array UInt8,
        (Instruction.writeAll Sink.buffer
            [.fstore (.wide 3), .ldc (.long 255), .bipush (-128), .iconst .minusOne]).runAt #[] =
          (.ok (), written) ∧
        decode ⟨10, true⟩ written.toList =
          .ok (ofInstructions
            [.fstore (.wide 3), .ldc (.long 255), .bipush (-128), .iconst .minusOne]) :=
  ⟨by decide, decode_of_writeAll ⟨10, true⟩ _ rfl (by decide)⟩

end Bytecode.Code
