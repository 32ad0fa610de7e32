import Bytecode.Proofs.Code.Decoding

/-!
# The grammar of code

The grammar says in bytes alone what code is: a sequence of forms, each an opening byte with its
operand bytes, which may be any bytes at all. An operand may look like an opening byte, yet an
array can be cut into forms in one way only. Decoding accepts what the grammar derives, and its
entries are the forms, each at its offset and with the operand it spells.

## Main definitions

* `Grammar.IsForm`, `Grammar.Spells`: the forms, and the instruction that a form spells
* `Grammar.Decomposes`: an array cut into forms
* `Grammar.SpelledFrom`: entries that forms spell one after another

## Main results

* `Grammar.spells_iff`, `Grammar.isForm_iff`: forms are the bytes of admitted instructions
* `Code.decode_accepts_grammar`: decoding accepts exactly the grammar
-/

namespace Bytecode

namespace Grammar

/-- The integer with the bits of a byte, the highest of which is the sign. -/
def signExtended (byte : UInt8) : Int :=
  if byte.toNat < 128 then byte.toNat else byte.toNat - 256

/-- **The forms**: the byte strings of one instruction. -/
inductive IsForm (allowWide : Bool) : List UInt8 → Prop
  | small {opening : UInt8} (hlow : 0x02 ≤ opening) (hhigh : opening ≤ 0x08) :
      IsForm allowWide [opening]
  | signed (operand : UInt8) : IsForm allowWide [0x10, operand]
  | shortIndex (index : UInt8) : IsForm allowWide [0x12, index]
  | longIndex (hi lo : UInt8) : IsForm allowWide [0x13, hi, lo]
  | byteSlot (slot : UInt8) : IsForm allowWide [0x38, slot]
  | foldedSlot {opening : UInt8} (hlow : 0x43 ≤ opening) (hhigh : opening ≤ 0x46) :
      IsForm allowWide [opening]
  | wideSlot (h : allowWide = true) (hi lo : UInt8) : IsForm allowWide [0xC4, 0x38, hi, lo]

/-- **What a form spells**: its kind, the form of its operand and the value of its operand. -/
inductive Spells : List UInt8 → Instruction → Prop
  | small {opening : UInt8} {value : SmallInt} (h : value.toInt = opening.toNat - 3) :
      Spells [opening] (.iconst value)
  | signed {operand : UInt8} {value : Int8} (h : value.toInt = signExtended operand) :
      Spells [0x10, operand] (.bipush value)
  | shortIndex {index : UInt8} {ref : ConstantRef} (hform : ref.isWide = false)
      (h : ref.index.toNat = index.toNat) : Spells [0x12, index] (.ldc ref)
  | longIndex {hi lo : UInt8} {ref : ConstantRef} (hform : ref.isWide = true)
      (h : ref.index.toNat = hi.toNat * 256 + lo.toNat) : Spells [0x13, hi, lo] (.ldc ref)
  | byteSlot {index : UInt8} {slot : Slot} (hform : slot.form = .byte)
      (h : slot.index.toNat = index.toNat) : Spells [0x38, index] (.fstore slot)
  | foldedSlot {opening : UInt8} {slot : Slot} (hform : slot.form = .compact)
      (h : slot.index.toNat + 0x43 = opening.toNat) : Spells [opening] (.fstore slot)
  | wideSlot {hi lo : UInt8} {slot : Slot} (hform : slot.form = .wide)
      (h : slot.index.toNat = hi.toNat * 256 + lo.toNat) :
      Spells [0xC4, 0x38, hi, lo] (.fstore slot)

/-- **An array cut into forms**. -/
structure Decomposes (allowWide : Bool) (bytes : List UInt8) (forms : List (List UInt8)) :
    Prop where
  isForm : ∀ form ∈ forms, IsForm allowWide form
  flatten_eq : forms.flatten = bytes

/-- **Entries that forms spell**, the first at an offset and each further one where the form
before it ends. -/
inductive SpelledFrom : Nat → List (List UInt8) → List Entry → Prop
  | nil (offset : Nat) : SpelledFrom offset [] []
  | cons {offset : Nat} {form : List UInt8} {instruction : Instruction}
      {forms : List (List UInt8)} {entries : List Entry} (h : Spells form instruction)
      (hrest : SpelledFrom (offset + form.length) forms entries) :
      SpelledFrom offset (form :: forms) (⟨offset, instruction⟩ :: entries)

/-! ## Forms are the bytes of instructions -/

section Forms

theorem toInt_eq_signExtended (value : Int8) : value.toInt = signExtended value.toUInt8 := by
  have hcond : value.toInt = if 2 * value.toUInt8.toNat < 2 ^ 8 then
      (value.toUInt8.toNat : Int) else value.toUInt8.toNat - (2 ^ 8 : Nat) :=
    BitVec.toInt_eq_toNat_cond value.toBitVec
  rw [hcond, signExtended]
  by_cases hsign : value.toUInt8.toNat < 128
  · rw [if_pos hsign, if_pos (by omega)]
  · rw [if_neg hsign, if_neg (by omega)]
    rfl

theorem signExtended_injective {a b : UInt8} (h : signExtended a = signExtended b) : a = b := by
  have ha := a.toNat_lt
  have hb := b.toNat_lt
  apply UInt8.toNat_inj.mp
  unfold signExtended at h
  split at h <;> split at h <;> omega

theorem spells_bytes (instruction : Instruction) : Spells instruction.bytes instruction := by
  rcases instruction with value | value | (index | index) | (slot | slot | slot)
  case iconst => exact .small (by rw [SmallInt.toNat_toByte_opcode]; omega)
  case bipush => exact .signed (toInt_eq_signExtended value)
  case ldc.short => exact .shortIndex rfl (ConstantRef.toNat_index_short index)
  case ldc.long => exact .longIndex rfl (by simp [ConstantRef.index]; omega)
  case fstore.compact =>
    refine .foldedSlot rfl ?_
    rw [Slot.toNat_index_compact]
    exact (StoreFamily.toNat_toByte_compactOpcode slot).symm
  case fstore.byte => exact .byteSlot rfl (Slot.toNat_index_byte slot)
  case fstore.wide => exact .wideSlot rfl (by simp [Slot.index]; omega)

theorem eq_bytes_of_spells {form : List UInt8} {instruction : Instruction}
    (h : Spells form instruction) : form = instruction.bytes := by
  -- the opening bytes agree by the form of the operand, and the others are fixed by its value
  cases h with
  | @small opening value h =>
    have hopcode := value.toNat_toByte_opcode
    have : opening = value.opcode.toByte := UInt8.toNat_inj.mp (by omega)
    rw [this]
    rfl
  | @signed operand value h =>
    rw [toInt_eq_signExtended] at h
    rw [← signExtended_injective h]
    rfl
  | @shortIndex index ref hform h =>
    rcases ref with ref | ref
    · rw [ConstantRef.toNat_index_short] at h
      rw [← UInt8.toNat_inj.mp h]
      rfl
    · cases hform
  | @longIndex hi lo ref hform h =>
    rcases ref with ref | ref
    · cases hform
    · obtain rfl : ref = Word.ofBytes hi lo := Word.eq_ofBytes_of_toNat h
      simp [Instruction.bytes, ConstantRef.bytes, Opcode.toByte]
  | @byteSlot index slot hform h =>
    rcases slot with slot | slot | slot
    case byte =>
      rw [Slot.toNat_index_byte] at h
      rw [← UInt8.toNat_inj.mp h]
      rfl
    all_goals cases hform
  | @foldedSlot opening slot hform h =>
    rcases slot with slot | slot | slot
    case compact =>
      rw [Slot.toNat_index_compact, ← StoreFamily.toNat_toByte_compactOpcode] at h
      rw [← UInt8.toNat_inj.mp h]
      rfl
    all_goals cases hform
  | @wideSlot hi lo slot hform h =>
    rcases slot with slot | slot | slot
    case wide =>
      obtain rfl : slot = Word.ofBytes hi lo := Word.eq_ofBytes_of_toNat h
      simp [Instruction.bytes, StoreOperand.bytes, Instruction.floatOperand, StoreFamily.float,
        Opcode.toByte]
    all_goals cases hform

/-- **A form spells an instruction** exactly when it is the bytes of the instruction. -/
theorem spells_iff {form : List UInt8} {instruction : Instruction} :
    Spells form instruction ↔ form = instruction.bytes := by
  refine ⟨eq_bytes_of_spells, ?_⟩
  rintro rfl
  exact spells_bytes instruction

theorem exists_small {opening : UInt8} (hlow : 0x02 ≤ opening) (hhigh : opening ≤ 0x08) :
    ∃ value : SmallInt, opening = value.opcode.toByte := by
  have hlow : 2 ≤ opening.toNat := hlow
  have hhigh : opening.toNat ≤ 8 := hhigh
  have hcases : opening.toNat = 2 ∨ opening.toNat = 3 ∨ opening.toNat = 4 ∨ opening.toNat = 5 ∨
      opening.toNat = 6 ∨ opening.toNat = 7 ∨ opening.toNat = 8 := by omega
  rcases hcases with h | h | h | h | h | h | h
  · exact ⟨.minusOne, UInt8.toNat_inj.mp h⟩
  · exact ⟨.zero, UInt8.toNat_inj.mp h⟩
  · exact ⟨.one, UInt8.toNat_inj.mp h⟩
  · exact ⟨.two, UInt8.toNat_inj.mp h⟩
  · exact ⟨.three, UInt8.toNat_inj.mp h⟩
  · exact ⟨.four, UInt8.toNat_inj.mp h⟩
  · exact ⟨.five, UInt8.toNat_inj.mp h⟩

theorem exists_folded {opening : UInt8} (hlow : 0x43 ≤ opening) (hhigh : opening ≤ 0x46) :
    ∃ slot : Fin 4, opening = (StoreFamily.float.compactOpcode slot).toByte := by
  have hlow : 0x43 ≤ opening.toNat := hlow
  have hhigh : opening.toNat ≤ 0x46 := hhigh
  refine ⟨⟨opening.toNat - 0x43, by omega⟩, UInt8.toNat_inj.mp ?_⟩
  rw [StoreFamily.toNat_toByte_compactOpcode]
  show opening.toNat = opening.toNat - 0x43 + 0x43
  omega

/-- **The forms are the bytes of the admitted instructions**. -/
theorem isForm_iff {allowWide : Bool} {form : List UInt8} :
    IsForm allowWide form ↔
      ∃ instruction : Instruction, instruction.Admitted allowWide ∧ form = instruction.bytes := by
  constructor
  · intro h
    cases h with
    | small hlow hhigh =>
      obtain ⟨value, rfl⟩ := exists_small hlow hhigh
      exact ⟨.iconst value, nofun, rfl⟩
    | signed operand => exact ⟨.bipush operand.toInt8, nofun, rfl⟩
    | shortIndex index => exact ⟨.ldc (.short index), nofun, rfl⟩
    | longIndex hi lo =>
      exact ⟨.ldc (.long (Word.ofBytes hi lo)), nofun,
        eq_bytes_of_spells (.longIndex rfl (Word.toNat_ofBytes hi lo))⟩
    | byteSlot slot => exact ⟨.fstore (.byte slot), nofun, rfl⟩
    | foldedSlot hlow hhigh =>
      obtain ⟨slot, rfl⟩ := exists_folded hlow hhigh
      exact ⟨.fstore (.compact slot), nofun, rfl⟩
    | wideSlot h hi lo =>
      exact ⟨.fstore (.wide (Word.ofBytes hi lo)), fun _ => h,
        eq_bytes_of_spells (.wideSlot rfl (Word.toNat_ofBytes hi lo))⟩
  · rintro ⟨instruction, hadmitted, rfl⟩
    rcases instruction with value | value | (index | index) | (slot | slot | slot)
    case iconst => cases value <;> exact .small (by decide) (by decide)
    case bipush => exact .signed _
    case ldc.short => exact .shortIndex _
    case ldc.long => exact .longIndex _ _
    case fstore.compact =>
      have hslot := slot.isLt
      have hopening := StoreFamily.toNat_toByte_compactOpcode slot
      refine .foldedSlot (UInt8.le_iff_toNat_le.mpr ?_) (UInt8.le_iff_toNat_le.mpr ?_)
      · show 0x43 ≤ (StoreFamily.float.compactOpcode slot).toByte.toNat
        omega
      · show (StoreFamily.float.compactOpcode slot).toByte.toNat ≤ 0x46
        omega
    case fstore.byte => exact .byteSlot _
    case fstore.wide => exact .wideSlot (hadmitted rfl) _ _

end Forms

/-! ## Arrays cut into forms -/

section Arrays

variable {allowWide : Bool} {bytes : List UInt8} {forms : List (List UInt8)}

/-- A sequence of forms is the bytes of admitted instructions, one form for each. -/
theorem forall_isForm_iff :
    (∀ form ∈ forms, IsForm allowWide form) ↔
      ∃ instructions : List Instruction,
        (∀ instruction ∈ instructions, instruction.Admitted allowWide) ∧
          forms = instructions.map Instruction.bytes := by
  constructor
  · intro h
    induction forms with
    | nil => exact ⟨[], by simp, rfl⟩
    | cons form others ih =>
      obtain ⟨hform, hothers⟩ := List.forall_mem_cons.mp h
      obtain ⟨instruction, hadmitted, rfl⟩ := isForm_iff.mp hform
      obtain ⟨instructions, hrest, rfl⟩ := ih hothers
      exact ⟨instruction :: instructions, List.forall_mem_cons.mpr ⟨hadmitted, hrest⟩, rfl⟩
  · rintro ⟨instructions, hadmitted, rfl⟩ form hform
    obtain ⟨instruction, hmem, rfl⟩ := List.mem_map.mp hform
    exact isForm_iff.mpr ⟨instruction, hadmitted instruction hmem, rfl⟩

theorem decomposes_map {instructions : List Instruction}
    (h : ∀ instruction ∈ instructions, instruction.Admitted allowWide) :
    Decomposes allowWide (instructions.flatMap Instruction.bytes)
      (instructions.map Instruction.bytes) :=
  ⟨forall_isForm_iff.mpr ⟨instructions, h, rfl⟩, List.flatMap_def.symm⟩

/-- **Cutting an array into forms** is finding the admitted instructions it is the bytes of. -/
theorem decomposes_iff :
    Decomposes allowWide bytes forms ↔
      ∃ instructions : List Instruction,
        (∀ instruction ∈ instructions, instruction.Admitted allowWide) ∧
          bytes = instructions.flatMap Instruction.bytes ∧
          forms = instructions.map Instruction.bytes := by
  constructor
  · rintro ⟨hforms, rfl⟩
    obtain ⟨instructions, hadmitted, rfl⟩ := forall_isForm_iff.mp hforms
    exact ⟨instructions, hadmitted, List.flatMap_def.symm, rfl⟩
  · rintro ⟨instructions, hadmitted, rfl, rfl⟩
    exact decomposes_map hadmitted

/-- **An array is cut into forms in one way only**. -/
theorem Decomposes.unique {forms' : List (List UInt8)} (h : Decomposes allowWide bytes forms)
    (h' : Decomposes allowWide bytes forms') : forms' = forms := by
  obtain ⟨instructions, -, rfl, rfl⟩ := decomposes_iff.mp h
  obtain ⟨others, -, hbytes, rfl⟩ := decomposes_iff.mp h'
  rw [Instruction.flatMap_bytes_injective hbytes]

end Arrays

/-! ## The entries that forms spell -/

section Entries

/-- **The bytes of instructions spell the instructions laid out**, and no other entries. -/
theorem spelledFrom_map_iff {offset : Nat} {instructions : List Instruction}
    {entries : List Entry} :
    SpelledFrom offset (instructions.map Instruction.bytes) entries ↔
      entries = Code.layout offset instructions := by
  -- by induction on the instructions, at every offset: the next one stands where this one ends
  induction instructions generalizing offset entries with
  | nil =>
    constructor
    · rintro ⟨⟩
      rfl
    · rintro rfl
      exact .nil offset
  | cons instruction others ih =>
    rw [List.map_cons, Code.layout]
    constructor
    · rintro (_ | @⟨_, _, spelled, _, entries, hspells, hrest⟩)
      obtain rfl : instruction = spelled :=
        Instruction.bytes_injective (spells_iff.mp hspells)
      rw [Instruction.length_bytes] at hrest
      rw [ih.mp hrest]
    · rintro rfl
      refine .cons (spells_bytes instruction) ?_
      rw [Instruction.length_bytes]
      exact ih.mpr rfl

end Entries

end Grammar

namespace Code

open Grammar

/-- **Decoding accepts exactly the grammar**. It succeeds on the arrays within the limit that can
be cut into forms. Then there is one way to cut, and the entries are what the forms spell, each at
the offset where its form stands. -/
theorem decode_accepts_grammar (options : DecodeOptions) (bytes : List UInt8) :
    ((∃ code, decode options bytes = .ok code) ↔
      bytes.length ≤ options.maxCodeLength ∧
        ∃ forms, Decomposes options.allowWide bytes forms) ∧
    ∀ code, decode options bytes = .ok code ↔
      bytes.length ≤ options.maxCodeLength ∧
        ∃ forms, (∀ forms', Decomposes options.allowWide bytes forms' ↔ forms' = forms) ∧
          SpelledFrom 0 forms code.entries := by
  refine ⟨?_, fun code => ?_⟩
  · constructor
    · rintro ⟨code, h⟩
      obtain ⟨hlength, instructions, hadmitted, rfl, -⟩ := decode_eq_ok_iff.mp h
      exact ⟨hlength, _, decomposes_map hadmitted⟩
    · rintro ⟨hlength, forms, hforms⟩
      obtain ⟨instructions, hadmitted, rfl, -⟩ := decomposes_iff.mp hforms
      exact ⟨_, decode_flatMap hadmitted hlength⟩
  · constructor
    · intro h
      obtain ⟨hlength, instructions, hadmitted, rfl, rfl⟩ := decode_eq_ok_iff.mp h
      have hforms := decomposes_map hadmitted
      refine ⟨hlength, _, fun forms' => ⟨hforms.unique, ?_⟩, spelledFrom_map_iff.mpr rfl⟩
      rintro rfl
      exact hforms
    · rintro ⟨hlength, forms, hforms, hspelled⟩
      obtain ⟨instructions, hadmitted, rfl, rfl⟩ := decomposes_iff.mp ((hforms forms).mpr rfl)
      obtain ⟨entries⟩ := code
      obtain rfl : entries = layout 0 instructions := spelledFrom_map_iff.mp hspelled
      exact decode_flatMap hadmitted hlength

end Code

end Bytecode
