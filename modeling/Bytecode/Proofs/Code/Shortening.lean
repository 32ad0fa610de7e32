import Bytecode.Proofs.Code.Decoding
import Mathlib.Data.List.Forall2

/-!
# Shortest forms

A reference and a slot may be written longer than they have to be, and decoding keeps the form that
was read. What an instruction says does not depend on the form: taken by itself, it is what an
instruction is constructed from, and construction chooses the shortest form. No two forms of one
instruction are of the same length, so nothing else is as short. Code whose instructions are
constructed anew says the same, and no instruction of it stands further on than before.

## Main definitions

* `Content`, `Instruction.content`: what an instruction says, whatever its form
* `Content.toInstruction`, `Instruction.shortest`: an instruction constructed from what it says
* `Code.shortened`: code whose instructions are constructed anew

## Main results

* `Instruction.length_shortest_le`: construction never makes an instruction longer
* `Instruction.eq_of_content_of_length`: what it says and its length determine an instruction
* `Code.forall₂_layout_shortest`: no instruction stands further on
* `Code.shortened_of_decode`: shortest forms, of instructions and of decoded code
-/

namespace Bytecode

/-! ## Forms and their lengths -/

section Forms

/-- The forms of a slot have different lengths. -/
theorem SlotForm.length_injective {a b : SlotForm} (h : a.length = b.length) : a = b := by
  cases a <;> cases b <;> simp [length] at h ⊢

/-- A form names a slot in one way. -/
theorem Slot.eq_of_index_of_form {a b : Slot} (hindex : a.index = b.index)
    (hform : a.form = b.form) : a = b := by
  have htoNat : a.index.toNat = b.index.toNat := congrArg UInt16.toNat hindex
  cases a with
  | compact slot =>
    cases b with
    | compact slot' =>
      have hslot : slot.val = slot'.val := by simpa using htoNat
      rw [Fin.ext hslot]
    | byte | wide => cases hform
  | byte slot =>
    cases b with
    | byte slot' =>
      have hslot : slot.toNat = slot'.toNat := by simpa using htoNat
      rw [UInt8.toNat_inj.mp hslot]
    | compact | wide => cases hform
  | wide slot =>
    cases b with
    | wide slot' => rw [show slot = slot' from hindex]
    | compact | byte => cases hform

/-- **The form chosen for a slot** is at most as long as any form that the slot has. -/
theorem Slot.length_form_ofIndex_le (slot : Slot) :
    (ofIndex slot.index).form.length ≤ slot.form.length := by
  unfold ofIndex
  cases slot with
  | compact slot =>
    have hlt : (compact slot).index.toNat < 4 := by simp
    rw [dif_pos hlt]
    exact Nat.le_refl 1
  | byte slot =>
    have hlt : (byte slot).index.toNat < 256 := by simpa using slot.toNat_lt
    rw [if_pos hlt]
    split
    · show 1 ≤ 2
      decide
    · exact Nat.le_refl 2
  | wide slot =>
    split
    · show 1 ≤ 4
      decide
    · split
      · show 2 ≤ 4
        decide
      · exact Nat.le_refl 4

namespace ConstantRef

/-- **The form chosen for an index** is at most as long as any form that the reference has. -/
theorem length_ofIndex_le (ref : ConstantRef) : (ofIndex ref.index).length ≤ ref.length := by
  unfold ofIndex
  cases ref with
  | short index =>
    have hlt : (short index).index.toNat < 256 := by simpa using index.toNat_lt
    rw [if_pos hlt]
    exact Nat.le_refl 2
  | long index =>
    split
    · show 2 ≤ 3
      decide
    · exact Nat.le_refl 3

end ConstantRef

end Forms

/-! ## What an instruction says -/

/-- **What an instruction says**, whatever the form it is written in. -/
inductive Content where
  | iconst (value : SmallInt)
  | bipush (value : Int8)
  | ldc (index : UInt16)
  | fstore (slot : UInt16)
  deriving DecidableEq

/-- The instruction constructed from what it is to say. -/
def Content.toInstruction : Content → Instruction
  | iconst value => .iconst value
  | bipush value => .bipush value
  | ldc index => .ldc (.ofIndex index)
  | fstore slot => .fstore (.ofIndex slot)

namespace Instruction

/-- What an instruction says: its value, its index or its slot. -/
def content : Instruction → Content
  | iconst value => .iconst value
  | bipush value => .bipush value
  | ldc constant => .ldc constant.index
  | fstore slot => .fstore slot.index

/-- **The instruction constructed anew** from what it says. -/
def shortest (instruction : Instruction) : Instruction := instruction.content.toInstruction

@[simp] theorem content_toInstruction (content : Content) :
    content.toInstruction.content = content := by
  cases content <;> simp [Content.toInstruction, Instruction.content]

@[simp] theorem content_shortest (instruction : Instruction) :
    instruction.shortest.content = instruction.content :=
  content_toInstruction instruction.content

/-- **Construction** never makes an instruction longer. -/
theorem length_shortest_le (instruction : Instruction) :
    instruction.shortest.length ≤ instruction.length := by
  cases instruction with
  | iconst | bipush => exact Nat.le_refl _
  | ldc ref => exact ref.length_ofIndex_le
  | fstore slot => exact slot.length_form_ofIndex_le

/-- **What it says and its length** determine an instruction. -/
theorem eq_of_content_of_length {a b : Instruction} (hcontent : a.content = b.content)
    (hlength : a.length = b.length) : a = b := by
  -- instructions of two kinds do not say the same
  cases a <;> cases b <;> try cases hcontent
  case iconst.iconst => rfl
  case bipush.bipush => rfl
  case ldc.ldc ref ref' =>
    rw [ConstantRef.eq_of_index_of_length (Content.ldc.inj hcontent) hlength]
  case fstore.fstore slot slot' =>
    rw [Slot.eq_of_index_of_form (Content.fstore.inj hcontent) (SlotForm.length_injective hlength)]

end Instruction

/-! ## Code constructed anew -/

namespace Code

open Instruction

/-- **Code whose instructions are constructed anew**, each in its shortest form. -/
def shortened (code : Code) : Code := ofInstructions (code.instructions.map shortest)

/-- **No instruction stands further on** once those before it are constructed anew. -/
theorem forall₂_layout_shortest {offset offset' : Nat} (h : offset ≤ offset')
    (instructions : List Instruction) :
    List.Forall₂ (fun short entry => short.offset ≤ entry.offset)
      (layout offset (instructions.map shortest)) (layout offset' instructions) := by
  induction instructions generalizing offset offset' with
  | nil => exact .nil
  | cons instruction rest ih =>
    exact .cons h (ih (Nat.add_le_add h instruction.length_shortest_le))

theorem sum_length_shortest_le (instructions : List Instruction) :
    ((instructions.map shortest).map length).sum ≤ (instructions.map length).sum := by
  induction instructions with
  | nil => exact Nat.le_refl _
  | cons instruction rest ih => exact Nat.add_le_add instruction.length_shortest_le ih

/-- Instructions that are no shorter when constructed anew are in their shortest forms. -/
theorem map_shortest_of_sum_eq {instructions : List Instruction}
    (h : ((instructions.map shortest).map length).sum = (instructions.map length).sum) :
    instructions.map shortest = instructions := by
  induction instructions with
  | nil => rfl
  | cons instruction rest ih =>
    -- no part of the sum grows, so none of them shrinks
    have hfirst := instruction.length_shortest_le
    have hrest := sum_length_shortest_le rest
    simp only [List.map_cons, List.sum_cons] at h
    rw [List.map_cons, ih (by omega),
      eq_of_content_of_length instruction.content_shortest (by omega)]

theorem byteLength_ofInstructions (instructions : List Instruction) :
    (ofInstructions instructions).byteLength = (instructions.map length).sum := by
  rw [byteLength_eq_sum, instructions_ofInstructions]

/-- **Shortest forms**. The instruction constructed from what is to be said is shorter than every
other instruction that says it; these may be any, since each can be obtained
(`Instruction.obtainable`). So decoded code says the same, instruction by instruction, when these
are constructed anew; none of them stands further on than it did; the code has at most as many
bytes, and as many only if nothing is changed. -/
theorem shortened_of_decode :
    (∀ (instruction : Instruction) (said : Content), instruction.content = said →
      said.toInstruction.length ≤ instruction.length ∧
        (said.toInstruction.length = instruction.length → instruction = said.toInstruction)) ∧
    ∀ options bytes code, decode options bytes = .ok code →
      code.shortened.instructions.map content = code.instructions.map content ∧
      List.Forall₂ (fun short entry => short.offset ≤ entry.offset)
        code.shortened.entries code.entries ∧
      code.shortened.byteLength ≤ code.byteLength ∧
      (code.shortened.byteLength = code.byteLength ↔ code.shortened = code) := by
  constructor
  · rintro instruction _ rfl
    refine ⟨instruction.length_shortest_le, fun h => ?_⟩
    exact (eq_of_content_of_length instruction.content_shortest h).symm
  · intro options bytes code h
    obtain ⟨-, instructions, -, -, rfl⟩ := decode_eq_ok_iff.mp h
    simp only [shortened, instructions_ofInstructions, byteLength_ofInstructions]
    refine ⟨?_, ?_, sum_length_shortest_le instructions, fun hsum => ?_, fun hsame => ?_⟩
    · rw [List.map_map]
      exact List.map_congr_left fun instruction _ => instruction.content_shortest
    · exact forall₂_layout_shortest (Nat.le_refl 0) instructions
    · rw [map_shortest_of_sum_eq hsum]
    · rw [← byteLength_ofInstructions, hsame, byteLength_ofInstructions]

/-- A reference and two slots in longer forms than they need, and an instruction that is in its
shortest form already: four bytes less, and the last instruction moves up. -/
theorem shortened_of_decode_longer_forms :
    decode {} [0x13, 0x00, 0x09, 0x38, 0x02, 0xC4, 0x38, 0x00, 0x07, 0x04] =
        .ok (ofInstructions
          [.ldc (.long 9), .fstore (.byte 2), .fstore (.wide 7), .iconst .one]) ∧
      (ofInstructions
          [.ldc (.long 9), .fstore (.byte 2), .fstore (.wide 7), .iconst .one]).shortened =
        ofInstructions [.ldc (.short 9), .fstore (.compact 2), .fstore (.byte 7), .iconst .one] ∧
      (ofInstructions [.ldc (.short 9), .fstore (.compact 2), .fstore (.byte 7),
          .iconst .one]).byteLength ≤
        (ofInstructions
          [.ldc (.long 9), .fstore (.byte 2), .fstore (.wide 7), .iconst .one]).byteLength := by
  have hdecode : decode {} [0x13, 0x00, 0x09, 0x38, 0x02, 0xC4, 0x38, 0x00, 0x07, 0x04] =
      .ok (ofInstructions
        [.ldc (.long 9), .fstore (.byte 2), .fstore (.wide 7), .iconst .one]) :=
    decode_eq_ok_iff.mpr ⟨by decide, _, fun _ _ _ => rfl, rfl, rfl⟩
  have hshortened : (ofInstructions
      [.ldc (.long 9), .fstore (.byte 2), .fstore (.wide 7), .iconst .one]).shortened =
        ofInstructions
          [.ldc (.short 9), .fstore (.compact 2), .fstore (.byte 7), .iconst .one] := by
    decide
  obtain ⟨-, -, hle, -⟩ := shortened_of_decode.2 _ _ _ hdecode
  rw [hshortened] at hle
  exact ⟨hdecode, hshortened, hle⟩

end Code

end Bytecode
