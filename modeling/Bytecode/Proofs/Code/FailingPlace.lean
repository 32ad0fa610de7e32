import Bytecode.Proofs.Code.Decoding
import Mathlib.Order.Bounds.Defs

/-!
# The place where decoding fails

Of the beginnings of an array that can be decoded there is a longest one. If decoding fails, then
the instruction that should follow the longest beginning is at fault, and the error says which of
its bytes: the first, the one after the mark, or the missing bytes of its operand.

## Main definitions

* `Code.decodableLengths`: how long the beginnings are that can be decoded
* `Code.FailsAt`: what is wrong with the instruction at a place, as the error reports it

## Main results

* `Code.isGreatest_decodableLengths`: the split of an array gives its longest beginning
* `Code.decode_error_place`: an error tells what is wrong right behind the longest beginning
-/

namespace Bytecode

/-- The bytes that are opcodes. -/
def Opcode.knownBytes : List UInt8 :=
  [0x02, 0x03, 0x04, 0x05, 0x06, 0x07, 0x08, 0x10, 0x12, 0x13, 0x38, 0x43, 0x44, 0x45, 0x46, 0xC4]

theorem Opcode.mem_knownBytes_iff {byte : UInt8} :
    byte ∈ knownBytes ↔ ∃ opcode : Opcode, opcode.toByte = byte := by
  have hbytes : knownBytes = all.map toByte := rfl
  rw [hbytes, List.mem_map]
  constructor
  · rintro ⟨opcode, -, h⟩
    exact ⟨opcode, h⟩
  · rintro ⟨opcode, h⟩
    exact ⟨opcode, mem_all opcode, h⟩

theorem Opcode.not_mem_knownBytes {byte : UInt8} (h : ofByte? byte = none) :
    byte ∉ knownBytes := by
  rw [mem_knownBytes_iff]
  rintro ⟨opcode, hopcode⟩
  exact ofByte?_eq_none_iff.mp h opcode hopcode

namespace Code

/-- **How long the beginnings are** that can be decoded. -/
def decodableLengths (options : DecodeOptions) (bytes : List UInt8) : Set Nat :=
  {length | length ≤ bytes.length ∧ ∃ code, decode options (bytes.take length) = .ok code}

/-- **What is wrong with the instruction at a place**, in the words of the error. -/
inductive FailsAt (allowWide : Bool) (bytes : List UInt8) (place : Nat) : DecodeError → Prop
  | unknown {byte : UInt8} {offset : Nat} (hbyte : bytes[offset]? = some byte)
      (hunknown : byte ∉ Opcode.knownBytes)
      (hoffset : offset = place ∨
        offset = place + 1 ∧ allowWide = true ∧ bytes[place]? = some 0xC4) :
      FailsAt allowWide bytes place (.unknownOpcode byte offset)
  | refusedMark (hwide : allowWide = false) (hmark : bytes[place]? = some 0xC4) :
      FailsAt allowWide bytes place (.illegalWide 0xC4 place)
  | misplacedMark {byte : UInt8} (hwide : allowWide = true) (hmark : bytes[place]? = some 0xC4)
      (hbyte : bytes[place + 1]? = some byte) (hknown : byte ∈ Opcode.knownBytes)
      (hfstore : byte ≠ 0x38) :
      FailsAt allowWide bytes place (.illegalWide byte (place + 1))
  | cutShort {offset needed available : Nat} (hend : offset + available = bytes.length)
      (hshort : available < needed) (hneeded : needed ≤ 2)
      (hoffset : offset = place + 1 ∨ offset = place + 2) :
      FailsAt allowWide bytes place (.unexpectedEnd offset needed available)

/-! ## From the refused remainder to the place -/

section Place

variable {options : DecodeOptions} {front rest : List UInt8} {e : DecodeError}

theorem getElem?_append_length_add (front rest : List UInt8) (distance : Nat) :
    (front ++ rest)[front.length + distance]? = rest[distance]? := by
  rw [List.getElem?_append_right (Nat.le_add_right _ _), Nat.add_sub_cancel_left]

theorem getElem?_append_length (front rest : List UInt8) :
    (front ++ rest)[front.length]? = rest[0]? :=
  getElem?_append_length_add front rest 0

/-- **A cause of refusal is a fault at the place** where the remainder begins. -/
theorem failsAt_of_refusal {allowWide : Bool} (hrest : rest ≠ [])
    (h : Instruction.Refusal allowWide front.length rest e) :
    FailsAt allowWide (front ++ rest) front.length e := by
  cases h with
  | nothing => exact absurd rfl hrest
  | unknown run hbyte =>
    exact .unknown (getElem?_append_length _ _) (Opcode.not_mem_knownBytes hbyte) (.inl rfl)
  | mark run hwide => exact .refusedMark hwide (getElem?_append_length _ _)
  | markAtEnd hwide => exact .cutShort (by simp) Nat.one_pos (by decide) (.inl rfl)
  | unknownMarked run hwide hbyte =>
    refine .unknown (getElem?_append_length_add _ _ 1) (Opcode.not_mem_knownBytes hbyte) ?_
    exact .inr ⟨rfl, hwide, getElem?_append_length _ _⟩
  | @misplacedMark opcode run hwide hopcode =>
    refine .misplacedMark hwide (getElem?_append_length _ _) (getElem?_append_length_add _ _ 1)
      (Opcode.mem_knownBytes_iff.mpr ⟨opcode, rfl⟩) fun hbyte => hopcode ?_
    exact Opcode.toByte_injective hbyte
  | @truncated head run hhead hrun =>
    refine .cutShort ?_ hrun head.operandLength_le ?_
    · rw [List.length_append, List.length_append, Nat.add_assoc]
    · rw [Head.length_bytes]
      cases head.wide
      · exact .inl rfl
      · exact .inr rfl

/-- **The split of an array gives its longest beginning**: the instructions before a refused
remainder. -/
theorem isGreatest_decodableLengths {instructions : List Instruction} {position : Nat}
    (hadmitted : ∀ instruction ∈ instructions, instruction.Admitted options.allowWide)
    (hlength : (instructions.flatMap Instruction.bytes ++ rest).length ≤ options.maxCodeLength)
    (hrefusal : Instruction.Refusal options.allowWide position rest e) :
    IsGreatest (decodableLengths options (instructions.flatMap Instruction.bytes ++ rest))
      (instructions.flatMap Instruction.bytes).length := by
  constructor
  · rw [List.length_append] at hlength
    refine ⟨by simp, ofInstructions instructions, ?_⟩
    rw [List.take_left]
    exact decode_flatMap hadmitted (Nat.le_of_add_right_le hlength)
  · -- a longer beginning would be instructions too, and reach beyond the refused remainder
    rintro length ⟨hwithin, code, hcode⟩
    obtain ⟨-, others, hothers, htake, -⟩ := decode_eq_ok_iff.mp hcode
    have hsplit := List.take_append_drop length (instructions.flatMap Instruction.bytes ++ rest)
    rw [htake] at hsplit
    have hothersLength := congrArg List.length htake
    rw [List.length_take, Nat.min_eq_left hwithin] at hothersLength
    rw [hothersLength]
    exact length_le_of_refusal hrefusal hothers hsplit.symm

end Place

/-- **An error tells what is wrong right behind the longest beginning** that can be decoded. Only
the length of an array is reported instead, exactly if it is beyond the limit. -/
theorem decode_error_place (options : DecodeOptions) (bytes : List UInt8) :
    (∀ length limit, decode options bytes = .error (.codeTooLong length limit) ↔
      options.maxCodeLength < bytes.length ∧
        length = bytes.length ∧ limit = options.maxCodeLength) ∧
    (bytes.length ≤ options.maxCodeLength → ∀ e, decode options bytes = .error e →
      ∃ place < bytes.length, IsGreatest (decodableLengths options bytes) place ∧
        FailsAt options.allowWide bytes place e) := by
  refine ⟨fun length limit => ?_, fun hlength e h => ?_⟩
  · constructor
    · intro h
      rcases decode_eq_error_iff.mp h with ⟨hlong, hcause⟩ | ⟨-, _, _, -, -, -, hrefusal⟩
      · cases hcause
        exact ⟨hlong, rfl, rfl⟩
      · cases hrefusal
    · rintro ⟨hlong, rfl, rfl⟩
      exact decode_of_too_long hlong
  · rcases decode_eq_error_iff.mp h with
      ⟨hlong, -⟩ | ⟨-, instructions, rest, hadmitted, rfl, hrest, hrefusal⟩
    · exact absurd hlength (Nat.not_le.mpr hlong)
    · refine ⟨_, ?_, isGreatest_decodableLengths hadmitted hlength hrefusal,
        failsAt_of_refusal hrest hrefusal⟩
      have hpos := List.length_pos_iff.mpr hrest
      rw [List.length_append]
      exact Nat.lt_add_of_pos_right hpos

/-- A marked `bipush` behind an `iconst`, with an operand that is not looked at. -/
theorem decode_error_place_marked :
    decode {} [0x05, 0xC4, 0x10, 0x01] = .error (.illegalWide 0x10 2) ∧
      ∃ place < 4, IsGreatest (decodableLengths {} [0x05, 0xC4, 0x10, 0x01]) place ∧
        FailsAt true [0x05, 0xC4, 0x10, 0x01] place (.illegalWide 0x10 2) := by
  have hrefusal : Instruction.Refusal true 1 [0xC4, 0x10, 0x01] (.illegalWide 0x10 2) :=
    @Instruction.Refusal.misplacedMark true 1 .bipush [0x01] rfl (by decide)
  have h : decode {} [0x05, 0xC4, 0x10, 0x01] = .error (.illegalWide 0x10 2) :=
    decode_eq_error_iff.mpr <| .inr
      ⟨by decide, [.iconst .two], _, fun _ _ _ => rfl, rfl, List.cons_ne_nil _ _, hrefusal⟩
  exact ⟨h, (decode_error_place {} [0x05, 0xC4, 0x10, 0x01]).2 (by decide) _ h⟩

end Code

end Bytecode
