import Bytecode.Proofs.Instruction.Stream

/-!
# When a read is refused

A read that finds no instruction says why and where. The head is looked at before the operand, and
of the head the first byte before the second; so the causes exclude each other, and bytes that
open with no admitted instruction have exactly one of them. The cause also tells where the read
stopped.

## Main definitions

* `Instruction.Refusal`: the causes, with the bytes that give rise to them
* `DecodeError.stop?`: where a reader stands after it failed

## Main results

* `Instruction.exists_stop_of_refusal`: a cause is reported, and where the read stops
* `Instruction.read_eq_error_iff`: a read is refused exactly for these causes
* `Instruction.admitted_or_refusal`: bytes open with an instruction or there is a cause
-/

namespace Bytecode

open Reader

/-- **Where a reader stands after it failed**: before the bytes that are too few, or behind the
byte that is to blame. An overlong array is not read at all. -/
def DecodeError.stop? : DecodeError → Option Nat
  | unexpectedEnd offset _ _ => some offset
  | unknownOpcode _ offset => some (offset + 1)
  | illegalWide _ offset => some (offset + 1)
  | codeTooLong _ _ => none

namespace Instruction

/-- **The causes of a refused read** of the bytes after a position. -/
inductive Refusal (allowWide : Bool) (position : Nat) : List UInt8 → DecodeError → Prop
  | nothing : Refusal allowWide position [] (.unexpectedEnd position 1 0)
  | unknown {byte : UInt8} (rest : List UInt8) (h : Opcode.ofByte? byte = none) :
      Refusal allowWide position (byte :: rest) (.unknownOpcode byte position)
  | mark (rest : List UInt8) (h : allowWide = false) :
      Refusal allowWide position (Opcode.wide.toByte :: rest)
        (.illegalWide Opcode.wide.toByte position)
  | markAtEnd (h : allowWide = true) :
      Refusal allowWide position [Opcode.wide.toByte] (.unexpectedEnd (position + 1) 1 0)
  | unknownMarked {byte : UInt8} (rest : List UInt8) (h : allowWide = true)
      (hbyte : Opcode.ofByte? byte = none) :
      Refusal allowWide position (Opcode.wide.toByte :: byte :: rest)
        (.unknownOpcode byte (position + 1))
  | misplacedMark {opcode : Opcode} (rest : List UInt8) (h : allowWide = true)
      (hopcode : opcode ≠ .fstore) :
      Refusal allowWide position (Opcode.wide.toByte :: opcode.toByte :: rest)
        (.illegalWide opcode.toByte (position + 1))
  | truncated {head : Head} {run : List UInt8} (h : head.Admitted allowWide)
      (hrun : run.length < head.operandLength) :
      Refusal allowWide position (head.bytes ++ run)
        (.unexpectedEnd (position + head.bytes.length) head.operandLength run.length)

variable {allowWide : Bool}

/-! ## A cause is reported -/

/-- **An operand that is cut short** is not read at all. -/
theorem runAt_decode_of_short {head : Head} {run : List UInt8} (h : head.Admitted allowWide)
    (hrun : run.length < head.operandLength) (position : Nat) :
    (decode head).runAt ⟨position, run⟩ =
      (.error (.unexpectedEnd position head.operandLength run.length), ⟨position, run⟩) := by
  rcases head with ⟨opcode, _ | _⟩
  · cases opcode
    case bipush | ldc | fstore =>
      obtain rfl : run = [] := List.eq_nil_of_length_eq_zero (Nat.lt_one_iff.mp hrun)
      rfl
    case ldcW =>
      rcases run with _ | ⟨_, _ | ⟨_, _⟩⟩
      · rfl
      · rfl
      · simp only [Head.operandLength, List.length_cons] at hrun
        omega
    -- no other opcode asks for an operand
    all_goals exact absurd hrun (Nat.not_lt_zero _)
  · obtain ⟨rfl, -⟩ : opcode = .fstore ∧ allowWide = true := h.of_wide rfl
    rcases run with _ | ⟨_, _ | ⟨_, _⟩⟩
    · rfl
    · rfl
    · simp only [Head.operandLength, List.length_cons, if_true] at hrun
      omega

/-- **A cause is reported**, and it tells where the read stops. -/
theorem exists_stop_of_refusal {position : Nat} {rest : List UInt8} {e : DecodeError}
    (h : Refusal allowWide position rest e) :
    ∃ taken, e.stop? = some (position + taken) ∧
      (read allowWide).runAt ⟨position, rest⟩ =
        (.error e, ⟨position + taken, rest.drop taken⟩) := by
  cases h with
  | nothing => exact ⟨0, rfl, rfl⟩
  | unknown rest h =>
    refine ⟨1, rfl, ?_⟩
    unfold read
    rw [runAt_bind_of_ok (runAt_position _), runAt_bind_of_error (runAt_opcode_of_none h _ _)]
    rfl
  | mark rest h =>
    subst h
    exact ⟨1, rfl, runAt_read_of_refused_mark _ _⟩
  | markAtEnd h =>
    subst h
    exact ⟨1, rfl, rfl⟩
  | unknownMarked rest h hbyte =>
    subst h
    refine ⟨2, rfl, ?_⟩
    unfold read
    rw [runAt_bind_of_ok (runAt_position _), runAt_bind_of_ok (runAt_opcode_toByte _ _ _),
      if_pos rfl, if_pos rfl, runAt_bind_of_error (runAt_opcode_of_none hbyte _ _)]
    rfl
  | misplacedMark rest h hopcode =>
    subst h
    refine ⟨2, rfl, ?_⟩
    unfold read
    rw [runAt_bind_of_ok (runAt_position _), runAt_bind_of_ok (runAt_opcode_toByte _ _ _),
      if_pos rfl, if_pos rfl, runAt_bind_of_ok (runAt_opcode_toByte _ _ _), if_neg hopcode]
    rfl
  | @truncated head run h hrun =>
    refine ⟨head.bytes.length, rfl, ?_⟩
    rw [runAt_read_head h, runAt_decode_of_short h hrun, List.drop_left]

theorem runAt_read_of_refusal {position : Nat} {rest : List UInt8} {e : DecodeError}
    (h : Refusal allowWide position rest e) :
    ((read allowWide).runAt ⟨position, rest⟩).1 = .error e := by
  obtain ⟨taken, -, hread⟩ := exists_stop_of_refusal h
  rw [hread]

/-! ## There is always an instruction or a cause -/

/-- Bytes open with an admitted head, or there is a cause why not. -/
theorem head_or_refusal (allowWide : Bool) (rest : List UInt8) :
    (∃ head run, Head.Admitted allowWide head ∧ rest = head.bytes ++ run) ∨
      ∀ position, ∃ e, Refusal allowWide position rest e := by
  rcases rest with _ | ⟨byte, rest⟩
  · exact .inr fun _ => ⟨_, .nothing⟩
  cases hbyte : Opcode.ofByte? byte with
  | none => exact .inr fun _ => ⟨_, .unknown rest hbyte⟩
  | some opcode =>
    obtain rfl := Opcode.ofByte?_eq_some_iff.mp hbyte
    by_cases hopcode : opcode = .wide
    · subst hopcode
      cases allowWide with
      | false => exact .inr fun _ => ⟨_, .mark rest rfl⟩
      | true =>
        -- after the mark the second byte decides
        rcases rest with _ | ⟨byte, rest⟩
        · exact .inr fun _ => ⟨_, .markAtEnd rfl⟩
        cases hsecond : Opcode.ofByte? byte with
        | none => exact .inr fun _ => ⟨_, .unknownMarked rest rfl hsecond⟩
        | some opcode =>
          obtain rfl := Opcode.ofByte?_eq_some_iff.mp hsecond
          by_cases hopcode : opcode = .fstore
          · subst hopcode
            exact .inl ⟨⟨.fstore, true⟩, rest, ⟨Opcode.noConfusion, fun _ => ⟨rfl, rfl⟩⟩, rfl⟩
          · exact .inr fun _ => ⟨_, .misplacedMark rest rfl hopcode⟩
    · exact .inl ⟨⟨opcode, false⟩, rest, ⟨hopcode, nofun⟩, rfl⟩

/-- Enough bytes after an admitted head are the operand of an instruction with this head. -/
theorem exists_operand {head : Head} {run : List UInt8} (h : head.Admitted allowWide)
    (hrun : head.operandLength ≤ run.length) :
    ∃ instruction : Instruction, instruction.head = head ∧
      ∃ rest, run = instruction.operand ++ rest := by
  rcases head with ⟨opcode, _ | _⟩
  · cases opcode
    case iconstM1 => exact ⟨iconst .minusOne, rfl, run, rfl⟩
    case iconst0 => exact ⟨iconst .zero, rfl, run, rfl⟩
    case iconst1 => exact ⟨iconst .one, rfl, run, rfl⟩
    case iconst2 => exact ⟨iconst .two, rfl, run, rfl⟩
    case iconst3 => exact ⟨iconst .three, rfl, run, rfl⟩
    case iconst4 => exact ⟨iconst .four, rfl, run, rfl⟩
    case iconst5 => exact ⟨iconst .five, rfl, run, rfl⟩
    case fstore0 => exact ⟨fstore (.compact 0), rfl, run, rfl⟩
    case fstore1 => exact ⟨fstore (.compact 1), rfl, run, rfl⟩
    case fstore2 => exact ⟨fstore (.compact 2), rfl, run, rfl⟩
    case fstore3 => exact ⟨fstore (.compact 3), rfl, run, rfl⟩
    case bipush =>
      obtain ⟨byte, rest, rfl⟩ := List.exists_cons_of_length_pos hrun
      exact ⟨bipush byte.toInt8, rfl, rest, rfl⟩
    case ldc =>
      obtain ⟨byte, rest, rfl⟩ := List.exists_cons_of_length_pos hrun
      exact ⟨ldc (.short byte), rfl, rest, rfl⟩
    case fstore =>
      obtain ⟨byte, rest, rfl⟩ := List.exists_cons_of_length_pos hrun
      exact ⟨fstore (.byte byte), rfl, rest, rfl⟩
    case ldcW =>
      match run, hrun with
      | hi :: lo :: rest, _ =>
        exact ⟨ldc (.long (Word.ofBytes hi lo)), rfl, rest, by simp [operand]⟩
    case wide => exact absurd rfl h.opcode_ne_wide
  · obtain ⟨rfl, -⟩ : opcode = .fstore ∧ allowWide = true := h.of_wide rfl
    match run, hrun with
    | hi :: lo :: rest, _ =>
      exact ⟨fstore (.wide (Word.ofBytes hi lo)), rfl, rest, by simp [operand]⟩

/-- An instruction with an admitted head is admitted. -/
theorem admitted_of_head {instruction : Instruction} (h : instruction.head.Admitted allowWide) :
    instruction.Admitted allowWide :=
  fun hmark => (h.of_wide hmark).2

/-- **Bytes open with an admitted instruction, or there is a cause** why they do not. -/
theorem admitted_or_refusal (allowWide : Bool) (rest : List UInt8) :
    (∃ instruction run, Admitted allowWide instruction ∧ rest = instruction.bytes ++ run) ∨
      ∀ position, ∃ e, Refusal allowWide position rest e := by
  rcases head_or_refusal allowWide rest with ⟨head, run, hhead, rfl⟩ | hrefusal
  · rcases Nat.lt_or_ge run.length head.operandLength with hshort | henough
    · exact .inr fun _ => ⟨_, .truncated hhead hshort⟩
    · obtain ⟨instruction, rfl, run, rfl⟩ := exists_operand hhead henough
      refine .inl ⟨instruction, run, admitted_of_head hhead, ?_⟩
      rw [bytes_eq_head_append, List.append_assoc]
  · exact .inr hrefusal

/-- **A read is refused exactly for these causes**. -/
theorem read_eq_error_iff {position : Nat} {rest : List UInt8} {e : DecodeError} :
    ((read allowWide).runAt ⟨position, rest⟩).1 = .error e ↔
      Refusal allowWide position rest e := by
  refine ⟨fun h => ?_, runAt_read_of_refusal⟩
  rcases admitted_or_refusal allowWide rest with ⟨instruction, run, hadmitted, rfl⟩ | hrefusal
  · rw [runAt_read_bytes hadmitted] at h
    cases h
  · obtain ⟨e', he'⟩ := hrefusal position
    rw [runAt_read_of_refusal he'] at h
    cases h
    exact he'

/-- Where there is a cause, no admitted instruction stands. -/
theorem Refusal.ne_bytes_append {position : Nat} {rest : List UInt8} {e : DecodeError}
    (h : Refusal allowWide position rest e) {instruction : Instruction}
    (hadmitted : instruction.Admitted allowWide) (run : List UInt8) :
    rest ≠ instruction.bytes ++ run := by
  rintro rfl
  have hread := runAt_read_of_refusal h
  rw [runAt_read_bytes hadmitted] at hread
  cases hread

end Instruction

end Bytecode
