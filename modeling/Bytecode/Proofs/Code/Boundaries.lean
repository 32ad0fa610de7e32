import Bytecode.Proofs.Code.Decoding
import Mathlib.Data.List.Induction

/-!
# Instruction boundaries

Decoding comes from one instruction boundary to the next. The boundaries it reaches are the places
behind so many whole instructions, and no other reading of the same bytes comes to other places: an
array that opens with instructions, in whatever way, is read through the same boundaries.

## Main definitions

* `Code.Reaches`: the cursors that decoding comes to

## Main results

* `Code.reaches_iff`: decoding reaches the places behind whole instructions
* `Code.exists_eq_append_of_flatMap`: instructions that an array opens with are its first ones
* `Code.mem_layout_iff`: the entries of a layout are the instructions, each behind those before it
-/

namespace Bytecode.Code

variable {options : DecodeOptions} {bytes : List UInt8} {cursor : Cursor}

/-! ## Places that decoding reaches -/

section Reaching

/-- **Decoding comes to a cursor**: the array is not refused for its length, and reads one after
another lead from its start to the cursor. -/
inductive Reaches (options : DecodeOptions) (bytes : List UInt8) : Cursor → Prop
  | start (h : bytes.length ≤ options.maxCodeLength) : Reaches options bytes (.start bytes)
  | read {cursor next : Cursor} {instruction : Instruction} (h : Reaches options bytes cursor)
      (hread : (Instruction.read options.allowWide).runAt cursor = (.ok instruction, next)) :
      Reaches options bytes next

/-- **Decoding reaches the places behind whole instructions**. -/
theorem reaches_iff :
    Reaches options bytes cursor ↔
      bytes.length ≤ options.maxCodeLength ∧ ∃ instructions : List Instruction,
        (∀ instruction ∈ instructions, instruction.Admitted options.allowWide) ∧
        bytes = instructions.flatMap Instruction.bytes ++ cursor.rest ∧
        cursor.position = (instructions.flatMap Instruction.bytes).length := by
  constructor
  · intro h
    induction h with
    | start hlength => exact ⟨hlength, [], by simp, rfl, rfl⟩
    | @read cursor next instruction h hread ih =>
      obtain ⟨hlength, instructions, hadmitted, hbytes, hposition⟩ := ih
      obtain ⟨hlast, hrest, hnext⟩ := Instruction.runAt_read_eq_ok_iff.mp hread
      refine ⟨hlength, instructions ++ [instruction], ?_, ?_, ?_⟩
      · exact List.forall_mem_append.mpr ⟨hadmitted, by simpa using hlast⟩
      · rw [hbytes, hrest]
        simp
      · rw [hnext, hposition]
        simp
  · rintro ⟨hlength, instructions, hadmitted, hbytes, hposition⟩
    -- by induction from the end: the last instruction is read from the boundary before it
    induction instructions using List.reverseRecOn generalizing cursor with
    | nil =>
      obtain ⟨position, rest⟩ := cursor
      obtain rfl : position = 0 := hposition
      obtain rfl : bytes = rest := hbytes
      exact .start hlength
    | append_singleton instructions instruction ih =>
      obtain ⟨hbefore, hlast⟩ := List.forall_mem_append.mp hadmitted
      have hlast : instruction.Admitted options.allowWide := by simpa using hlast
      have hreached : Reaches options bytes
          ⟨(instructions.flatMap Instruction.bytes).length, instruction.bytes ++ cursor.rest⟩ := by
        refine ih hbefore ?_ rfl
        rw [hbytes]
        simp
      refine hreached.read (Instruction.runAt_read_eq_ok_iff.mpr ⟨hlast, rfl, ?_⟩)
      rw [hposition]
      simp

end Reaching

/-! ## One way to read an array -/

section Unique

/-- **Instructions at the beginning** of instructions back to back are the first of these. -/
theorem exists_eq_append_of_flatMap {front instructions : List Instruction} {rest : List UInt8}
    (h : front.flatMap Instruction.bytes ++ rest = instructions.flatMap Instruction.bytes) :
    ∃ back, instructions = front ++ back ∧ rest = back.flatMap Instruction.bytes := by
  induction front generalizing instructions with
  | nil => exact ⟨instructions, rfl, h⟩
  | cons first front ih =>
    rw [List.flatMap_cons, List.append_assoc] at h
    cases instructions with
    | nil => exact absurd (List.append_eq_nil_iff.mp h).1 first.bytes_ne_nil
    | cons instruction instructions =>
      obtain ⟨rfl, hrest⟩ := Instruction.bytes_append_inj h
      obtain ⟨back, rfl, hback⟩ := ih hrest
      exact ⟨back, rfl, hback⟩

end Unique

/-! ## Entries of a layout -/

section Layout

/-- **An entry of a layout** stands as far on as the entries before it are long. -/
theorem offset_of_layout_eq {offset : Nat} {instructions : List Instruction}
    {before after : List Entry} {entry : Entry}
    (h : layout offset instructions = before ++ entry :: after) :
    entry.offset = offset + (before.map (·.instruction.length)).sum := by
  induction before generalizing offset instructions with
  | nil =>
    cases instructions with
    | nil => cases h
    | cons instruction instructions =>
      cases h
      rfl
  | cons first before ih =>
    cases instructions with
    | nil => cases h
    | cons instruction instructions =>
      rw [layout, List.cons_append, List.cons.injEq] at h
      obtain ⟨rfl, hrest⟩ := h
      rw [ih hrest, List.map_cons, List.sum_cons, Nat.add_assoc]

/-- Instructions are laid out after others from where these end. -/
theorem layout_append (offset : Nat) (front back : List Instruction) :
    layout offset (front ++ back) =
      layout offset front ++ layout (offset + (front.flatMap Instruction.bytes).length) back := by
  induction front generalizing offset with
  | nil => rfl
  | cons instruction rest ih =>
    rw [List.cons_append, layout, ih, layout, List.flatMap_cons, List.length_append,
      Instruction.length_bytes, Nat.add_assoc, List.cons_append]

/-- **A layout that is cut at an entry** is a cut of the instructions, and the entry stands behind
the bytes of the first part. -/
theorem cut_of_layout_eq {instructions : List Instruction} {before after : List Entry}
    {entry : Entry} (h : layout 0 instructions = before ++ entry :: after) :
    instructions = before.map Entry.instruction ++ entry.instruction ::
        after.map Entry.instruction ∧
      entry.offset = ((before.map Entry.instruction).flatMap Instruction.bytes).length := by
  constructor
  · rw [← map_instruction_layout 0 instructions, h, List.map_append, List.map_cons]
  · rw [offset_of_layout_eq h, Nat.zero_add, length_flatMap_bytes, List.map_map]
    rfl

/-- **The entries of a layout** are the instructions, each at the place behind those before it. -/
theorem mem_layout_iff {instructions : List Instruction} {entry : Entry} :
    entry ∈ layout 0 instructions ↔
      ∃ front back, instructions = front ++ entry.instruction :: back ∧
        entry.offset = (front.flatMap Instruction.bytes).length := by
  constructor
  · intro h
    obtain ⟨before, after, hentries⟩ := List.append_of_mem h
    exact ⟨_, _, cut_of_layout_eq hentries⟩
  · rintro ⟨front, back, rfl, hoffset⟩
    rw [layout_append, Nat.zero_add, ← hoffset, layout]
    exact List.mem_append_right _ List.mem_cons_self

end Layout

end Bytecode.Code
