import Bytecode.Code
import Bytecode.Proofs.Instruction.Refusal
import Mathlib.Algebra.GroupWithZero.Nat

/-!
# What decoding finds

Every byte array splits, in one way, into the bytes of admitted instructions and a remainder that
opens with none. Decoding reads the instructions of the split and looks at the remainder: it
succeeds if there is none, and reports the cause of refusal otherwise. All that is known about
decoding whole arrays follows from the split.

## Main definitions

* `Code.Obtainable`: code that was decoded or laid out

## Main results

* `Code.decodeFrom_flatMap_append`: decoding passes over instructions and keeps them
* `Code.exists_split`: the split of an array
* `Code.decode_cases`: decoding ends in one of three ways
* `Code.decode_eq_ok_iff`: decoding succeeds exactly on instructions back to back
* `Code.decode_eq_error_iff`: and otherwise reports the cause found at the remainder
* `Code.Obtainable.exists_eq`: code that was decoded or laid out is a layout of instructions
-/

namespace Bytecode.Code

variable {allowWide : Bool}

theorem length_flatMap_bytes (instructions : List Instruction) :
    (instructions.flatMap Instruction.bytes).length =
      (instructions.map Instruction.length).sum := by
  induction instructions with
  | nil => rfl
  | cons instruction rest ih => simp [ih]

theorem byteLength_eq_sum (code : Code) :
    code.byteLength = (code.instructions.map Instruction.length).sum := by
  rw [← length_bytes, bytes, length_flatMap_bytes]

/-! ## Decoding step by step -/

section Steps

theorem decodeFrom_nil (allowWide : Bool) (position : Nat) (found : List Entry) :
    decodeFrom allowWide ⟨position, []⟩ found = .ok found.reverse := by
  rw [decodeFrom]
  rfl

theorem decodeFrom_of_ok {cursor next : Cursor} {instruction : Instruction}
    (hrest : cursor.rest ≠ [])
    (h : (Instruction.read allowWide).runAt cursor = (.ok instruction, next))
    (found : List Entry) :
    decodeFrom allowWide cursor found =
      decodeFrom allowWide next (⟨cursor.position, instruction⟩ :: found) := by
  have hempty : cursor.isEmpty = false := by simpa [Cursor.isEmpty] using hrest
  rw [decodeFrom, if_neg (by simp [hempty])]
  split
  · next hread =>
    rw [h] at hread
    cases hread
    rfl
  · next hread =>
    rw [h] at hread
    cases hread

theorem decodeFrom_of_error {cursor : Cursor} {e : DecodeError} (hrest : cursor.rest ≠ [])
    (h : ((Instruction.read allowWide).runAt cursor).1 = .error e) (found : List Entry) :
    decodeFrom allowWide cursor found = .error e := by
  have hempty : cursor.isEmpty = false := by simpa [Cursor.isEmpty] using hrest
  rw [decodeFrom, if_neg (by simp [hempty])]
  split
  · next hread =>
    rw [hread] at h
    cases h
  · next hread =>
    rw [hread] at h
    cases h
    rfl

theorem decodeFrom_bytes_append {instruction : Instruction} (h : instruction.Admitted allowWide)
    (position : Nat) (rest : List UInt8) (found : List Entry) :
    decodeFrom allowWide ⟨position, instruction.bytes ++ rest⟩ found =
      decodeFrom allowWide ⟨position + instruction.length, rest⟩
        (⟨position, instruction⟩ :: found) := by
  refine decodeFrom_of_ok ?_ (Instruction.runAt_read_bytes h position rest) found
  exact List.append_ne_nil_of_left_ne_nil instruction.bytes_ne_nil rest

/-- **Decoding passes over instructions** and keeps them, laid out from where it stands. -/
theorem decodeFrom_flatMap_append {instructions : List Instruction}
    (h : ∀ instruction ∈ instructions, instruction.Admitted allowWide) (position : Nat)
    (rest : List UInt8) (found : List Entry) :
    decodeFrom allowWide ⟨position, instructions.flatMap Instruction.bytes ++ rest⟩ found =
      decodeFrom allowWide ⟨position + (instructions.flatMap Instruction.bytes).length, rest⟩
        ((layout position instructions).reverse ++ found) := by
  -- by induction on the instructions: each is read where the ones before it end
  induction instructions generalizing position found with
  | nil => rfl
  | cons instruction others ih =>
    obtain ⟨hfirst, hothers⟩ := List.forall_mem_cons.mp h
    rw [List.flatMap_cons, List.append_assoc, decodeFrom_bytes_append hfirst, ih hothers]
    simp [layout, Nat.add_assoc]

end Steps

/-! ## The split of a byte array -/

section Split

/-- **The split**: instructions back to back, and a remainder that is empty or is refused. -/
theorem exists_split (allowWide : Bool) (bytes : List UInt8) :
    ∃ (instructions : List Instruction) (rest : List UInt8),
      (∀ instruction ∈ instructions, instruction.Admitted allowWide) ∧
      bytes = instructions.flatMap Instruction.bytes ++ rest ∧
      (rest = [] ∨ ∀ position, ∃ e, Instruction.Refusal allowWide position rest e) := by
  -- by induction on the length, since an instruction takes several bytes at once
  induction hn : bytes.length using Nat.strongRecOn generalizing bytes with
  | _ n ih =>
    rcases Instruction.admitted_or_refusal allowWide bytes with
      ⟨instruction, run, hadmitted, rfl⟩ | hrefusal
    · have hpos := instruction.length_pos
      have hlt : run.length < n := by
        rw [← hn, List.length_append, Instruction.length_bytes]
        omega
      obtain ⟨instructions, rest, hothers, rfl, hrest⟩ := ih run.length hlt run rfl
      refine ⟨instruction :: instructions, rest, List.forall_mem_cons.mpr ⟨hadmitted, hothers⟩,
        ?_, hrest⟩
      rw [List.flatMap_cons, List.append_assoc]
    · exact ⟨[], bytes, by simp, rfl, .inr hrefusal⟩

/-- **The split reaches farthest**: no run of admitted instructions is longer than one that is
followed by a refused remainder. -/
theorem length_le_of_refusal {instructions others : List Instruction} {rest rest' : List UInt8}
    {position : Nat} {e : DecodeError}
    (hrefusal : Instruction.Refusal allowWide position rest e)
    (hothers : ∀ instruction ∈ others, instruction.Admitted allowWide)
    (h : instructions.flatMap Instruction.bytes ++ rest =
      others.flatMap Instruction.bytes ++ rest') :
    (others.flatMap Instruction.bytes).length ≤
      (instructions.flatMap Instruction.bytes).length := by
  induction others generalizing instructions with
  | nil => exact Nat.zero_le _
  | cons other others ih =>
    obtain ⟨hother, htail⟩ := List.forall_mem_cons.mp hothers
    rw [List.flatMap_cons, List.append_assoc] at h
    cases instructions with
    | nil => exact absurd h (hrefusal.ne_bytes_append hother _)
    | cons instruction instructions =>
      rw [List.flatMap_cons, List.append_assoc] at h
      obtain ⟨rfl, hbytes⟩ := Instruction.bytes_append_inj h
      rw [List.flatMap_cons, List.flatMap_cons, List.length_append, List.length_append]
      exact Nat.add_le_add_left (ih htail hbytes) _

end Split

/-! ## Decoding whole arrays -/

section Arrays

variable {options : DecodeOptions} {bytes : List UInt8}

theorem decode_of_too_long (h : options.maxCodeLength < bytes.length) :
    decode options bytes = .error (.codeTooLong bytes.length options.maxCodeLength) := by
  rw [decode, if_pos h]

theorem decode_flatMap {instructions : List Instruction}
    (h : ∀ instruction ∈ instructions, instruction.Admitted options.allowWide)
    (hlength : (instructions.flatMap Instruction.bytes).length ≤ options.maxCodeLength) :
    decode options (instructions.flatMap Instruction.bytes) =
      .ok (ofInstructions instructions) := by
  have hrun := decodeFrom_flatMap_append h 0 [] []
  rw [List.append_nil, List.append_nil, decodeFrom_nil, List.reverse_reverse] at hrun
  rw [decode, if_neg (Nat.not_lt.mpr hlength), Cursor.start, hrun]
  rfl

theorem decode_of_refusal {instructions : List Instruction} {rest : List UInt8} {e : DecodeError}
    (h : ∀ instruction ∈ instructions, instruction.Admitted options.allowWide)
    (hlength : (instructions.flatMap Instruction.bytes ++ rest).length ≤ options.maxCodeLength)
    (hrest : rest ≠ [])
    (hrefusal : Instruction.Refusal options.allowWide
      (instructions.flatMap Instruction.bytes).length rest e) :
    decode options (instructions.flatMap Instruction.bytes ++ rest) = .error e := by
  have hread := Instruction.runAt_read_of_refusal hrefusal
  rw [decode, if_neg (Nat.not_lt.mpr hlength), Cursor.start, decodeFrom_flatMap_append h,
    Nat.zero_add, decodeFrom_of_error hrest hread]
  rfl

/-- **The ends of decoding**: the array is too long, its split leaves no remainder, or the
remainder is refused. -/
theorem decode_cases (options : DecodeOptions) (bytes : List UInt8) :
    (options.maxCodeLength < bytes.length ∧
      decode options bytes = .error (.codeTooLong bytes.length options.maxCodeLength)) ∨
    bytes.length ≤ options.maxCodeLength ∧ ∃ instructions : List Instruction,
      (∀ instruction ∈ instructions, instruction.Admitted options.allowWide) ∧
        (bytes = instructions.flatMap Instruction.bytes ∧
            decode options bytes = .ok (ofInstructions instructions) ∨
          ∃ rest e, bytes = instructions.flatMap Instruction.bytes ++ rest ∧ rest ≠ [] ∧
            Instruction.Refusal options.allowWide
              (instructions.flatMap Instruction.bytes).length rest e ∧
            decode options bytes = .error e) := by
  rcases Nat.lt_or_ge options.maxCodeLength bytes.length with hlong | hlength
  · exact .inl ⟨hlong, decode_of_too_long hlong⟩
  obtain ⟨instructions, rest, hadmitted, rfl, hrest⟩ := exists_split options.allowWide bytes
  refine .inr ⟨hlength, instructions, hadmitted, ?_⟩
  by_cases hnil : rest = []
  · subst hnil
    rw [List.append_nil] at hlength ⊢
    exact .inl ⟨rfl, decode_flatMap hadmitted hlength⟩
  · obtain ⟨e, hrefusal⟩ := hrest.resolve_left hnil _
    exact .inr ⟨rest, e, rfl, hnil, hrefusal, decode_of_refusal hadmitted hlength hnil hrefusal⟩

/-- **Decoding succeeds exactly on admitted instructions back to back**, and lays them out. -/
theorem decode_eq_ok_iff {code : Code} :
    decode options bytes = .ok code ↔
      bytes.length ≤ options.maxCodeLength ∧ ∃ instructions : List Instruction,
        (∀ instruction ∈ instructions, instruction.Admitted options.allowWide) ∧
        bytes = instructions.flatMap Instruction.bytes ∧ code = ofInstructions instructions := by
  constructor
  · intro h
    rcases decode_cases options bytes with ⟨-, hdecode⟩ |
      ⟨hlength, instructions, hadmitted, ⟨hbytes, hdecode⟩ | ⟨_, _, -, -, -, hdecode⟩⟩
    all_goals
      rw [hdecode] at h
      cases h
    exact ⟨hlength, instructions, hadmitted, hbytes, rfl⟩
  · rintro ⟨hlength, instructions, hadmitted, rfl, rfl⟩
    exact decode_flatMap hadmitted hlength

/-- **Decoding fails exactly** on an array that is too long, and on one whose split leaves a
remainder. -/
theorem decode_eq_error_iff {e : DecodeError} :
    decode options bytes = .error e ↔
      (options.maxCodeLength < bytes.length ∧
        e = .codeTooLong bytes.length options.maxCodeLength) ∨
      (bytes.length ≤ options.maxCodeLength ∧
        ∃ (instructions : List Instruction) (rest : List UInt8),
        (∀ instruction ∈ instructions, instruction.Admitted options.allowWide) ∧
        bytes = instructions.flatMap Instruction.bytes ++ rest ∧ rest ≠ [] ∧
        Instruction.Refusal options.allowWide
          (instructions.flatMap Instruction.bytes).length rest e) := by
  constructor
  · intro h
    rcases decode_cases options bytes with ⟨hlong, hdecode⟩ |
      ⟨hlength, instructions, hadmitted, ⟨-, hdecode⟩ | ⟨rest, _, hbytes, hrest, hrefusal, hdecode⟩⟩
    all_goals
      rw [hdecode] at h
      cases h
    · exact .inl ⟨hlong, rfl⟩
    · exact .inr ⟨hlength, instructions, rest, hadmitted, hbytes, hrest, hrefusal⟩
  · rintro (⟨hlong, rfl⟩ | ⟨hlength, instructions, rest, hadmitted, rfl, hnil, hrefusal⟩)
    · exact decode_of_too_long hlong
    · exact decode_of_refusal hadmitted hlength hnil hrefusal

end Arrays

/-! ## Where code comes from -/

/-- **Code is obtained** by decoding an array, or by laying out instructions. -/
inductive Obtainable : Code → Prop
  | decode {options : DecodeOptions} {bytes : List UInt8} {code : Code}
      (h : Code.decode options bytes = .ok code) : Obtainable code
  | ofInstructions (instructions : List Instruction)
      (h : ∀ instruction ∈ instructions, instruction.Obtainable) :
      Obtainable (Code.ofInstructions instructions)

/-- However it was obtained, code is a layout of instructions. -/
theorem Obtainable.exists_eq {code : Code} (h : code.Obtainable) :
    ∃ instructions, code = Code.ofInstructions instructions := by
  cases h with
  | decode h =>
    obtain ⟨-, instructions, -, -, rfl⟩ := decode_eq_ok_iff.mp h
    exact ⟨instructions, rfl⟩
  | ofInstructions instructions h => exact ⟨instructions, rfl⟩

end Bytecode.Code
