import Bytecode.Proofs.Code.Boundaries

/-!
# Looking an instruction up by its offset

The instructions of code stand back to back: each begins where the one before it ends. So their
offsets ascend, and a search that halves the entries finds the one at an offset if there is one. In
code that was decoded, an offset has an instruction exactly if the bytes before it are code
themselves, and some byte follows.

## Main definitions

* `Entry.Precedes`: an instruction ends before another one begins
* `Code.Placed`: where the entries of code stand

## Main results

* `Entry.search_eq_some_iff`: the search finds the entry with an offset, if the offsets ascend
* `Code.placed_ofInstructions`: instructions that are laid out stand in their places
* `Code.at?_of_obtainable`: which offsets have an instruction
-/

namespace Bytecode

/-! ## Searching entries -/

namespace Entry

variable {offset : Nat} {entries back : List Entry} {entry middle : Entry}

/-- Ascending entries are cut by one of them into those before it and those behind it. -/
theorem ascending_cut {count : Nat} (h : entries.Pairwise fun a b => a.offset < b.offset)
    (hdrop : entries.drop count = middle :: back) :
    ((entries.take count).Pairwise fun a b => a.offset < b.offset) ∧
      (back.Pairwise fun a b => a.offset < b.offset) ∧
      (∀ entry ∈ entries.take count, entry.offset < middle.offset) ∧
      (∀ entry ∈ back, middle.offset < entry.offset) ∧
      ∀ entry, entry ∈ entries ↔
        entry ∈ entries.take count ∨ entry = middle ∨ entry ∈ back := by
  have hcut : entries = entries.take count ++ middle :: back := by
    rw [← hdrop, List.take_append_drop]
  rw [hcut] at h
  obtain ⟨hfront, hrest, hacross⟩ := List.pairwise_append.mp h
  obtain ⟨hmiddle, hback⟩ := List.pairwise_cons.mp hrest
  refine ⟨hfront, hback, fun entry hmem => hacross entry hmem middle List.mem_cons_self, hmiddle,
    fun entry => ?_⟩
  rw [← List.mem_cons, ← List.mem_append, ← hcut]

/-- **The search finds the entry with an offset**, if the offsets ascend. -/
theorem search_eq_some_iff (h : entries.Pairwise fun a b => a.offset < b.offset) :
    search offset entries = some entry ↔ entry ∈ entries ∧ entry.offset = offset := by
  -- by induction along the search: what lies in the other half has another offset
  fun_induction search offset entries with
  | case1 entries hdrop =>
    have hlength := congrArg List.length hdrop
    rw [List.length_drop, List.length_nil] at hlength
    obtain rfl : entries = [] := List.eq_nil_of_length_eq_zero (by omega)
    simp
  | case2 entries middle back hdrop hfound =>
    obtain ⟨-, -, hbefore, hbehind, hmem⟩ := ascending_cut h hdrop
    rw [Option.some.injEq, hmem]
    constructor
    · rintro rfl
      exact ⟨.inr (.inl rfl), hfound.symm⟩
    · rintro ⟨hfront | rfl | hback, hoffset⟩
      · have := hbefore entry hfront
        omega
      · rfl
      · have := hbehind entry hback
        omega
  | case3 entries middle back hdrop hne hlt ih =>
    obtain ⟨hfront, -, -, hbehind, hmem⟩ := ascending_cut h hdrop
    rw [ih hfront, hmem]
    refine and_congr_left fun hoffset => ⟨.inl, ?_⟩
    rintro (hfront | rfl | hback)
    · exact hfront
    · exact absurd hoffset.symm hne
    · have := hbehind entry hback
      omega
  | case4 entries middle back hdrop hne hge ih =>
    obtain ⟨-, hback, hbefore, -, hmem⟩ := ascending_cut h hdrop
    rw [ih hback, hmem]
    refine and_congr_left fun hoffset => ⟨fun hback => .inr (.inr hback), ?_⟩
    rintro (hfront | rfl | hback)
    · have := hbefore entry hfront
      omega
    · exact absurd hoffset.symm hne
    · exact hback

/-- **An instruction precedes another** if it ends where the other one begins, or before. -/
def Precedes (a b : Entry) : Prop := a.offset + a.instruction.length ≤ b.offset

theorem Precedes.offset_lt {a b : Entry} (h : a.Precedes b) : a.offset < b.offset :=
  Nat.lt_of_lt_of_le (Nat.lt_add_of_pos_right a.instruction.length_pos) h

/-- Of two entries, one precedes the other, if the list they stand in has them in order. -/
theorem precedes_or_precedes {a b : Entry} (h : entries.Pairwise Precedes) (ha : a ∈ entries)
    (hb : b ∈ entries) : a = b ∨ a.Precedes b ∨ b.Precedes a := by
  obtain ⟨front, back, rfl⟩ := List.append_of_mem ha
  obtain ⟨-, hrest, hacross⟩ := List.pairwise_append.mp h
  rw [List.mem_append, List.mem_cons] at hb
  rcases hb with hb | rfl | hb
  · exact .inr (.inr (hacross b hb a List.mem_cons_self))
  · exact .inl rfl
  · exact .inr (.inl ((List.pairwise_cons.mp hrest).1 b hb))

end Entry

namespace Code

/-! ## Where entries stand -/

section Places

variable {offset : Nat} {instructions : List Instruction} {entry : Entry} {code : Code}

theorem le_offset_of_mem_layout (h : entry ∈ layout offset instructions) :
    offset ≤ entry.offset := by
  obtain ⟨before, after, hentries⟩ := List.append_of_mem h
  rw [offset_of_layout_eq hentries]
  exact Nat.le_add_right _ _

theorem pairwise_precedes_layout (offset : Nat) (instructions : List Instruction) :
    (layout offset instructions).Pairwise Entry.Precedes := by
  induction instructions generalizing offset with
  | nil => exact .nil
  | cons instruction rest ih =>
    exact .cons (fun entry hmem => le_offset_of_mem_layout hmem) (ih _)

/-- **Code in place**: its entries begin at offset zero, each one as far on as those before it are
long, and the last one ends where the bytes do. -/
structure Placed (code : Code) : Prop where
  starts : ∀ entry ∈ code.entries.head?, entry.offset = 0
  offset_eq : ∀ before entry after, code.entries = before ++ entry :: after →
    entry.offset = (before.map (·.instruction.length)).sum
  ascending : code.entries.Pairwise fun a b => a.offset < b.offset
  ends : ∀ entry ∈ code.entries.getLast?,
    entry.offset + entry.instruction.length = code.byteLength

/-- **Instructions that are laid out stand in their places**. -/
theorem placed_ofInstructions (instructions : List Instruction) :
    (ofInstructions instructions).Placed where
  starts entry hentry := by
    obtain ⟨after, hentries⟩ := List.head?_eq_some_iff.mp hentry
    have hentries : layout 0 instructions = [] ++ entry :: after := hentries
    exact offset_of_layout_eq hentries
  offset_eq before entry after hentries := by
    rw [offset_of_layout_eq hentries, Nat.zero_add]
  ascending := (pairwise_precedes_layout 0 instructions).imp Entry.Precedes.offset_lt
  ends entry hentry := by
    obtain ⟨before, hentries⟩ := List.getLast?_eq_some_iff.mp hentry
    rw [byteLength_eq_sum, Code.instructions, hentries, List.map_map, List.map_append,
      List.sum_append, offset_of_layout_eq hentries]
    simp [Function.comp_def]

end Places

/-! ## Offsets with an instruction -/

section Offsets

variable {offset : Nat} {instruction : Instruction} {instructions : List Instruction} {code : Code}

/-- **An offset has an instruction** exactly if an entry stands there with it. -/
theorem at?_eq_some_iff (h : code.Placed) :
    code.at? offset = some instruction ↔ ⟨offset, instruction⟩ ∈ code.entries := by
  rw [at?, Option.map_eq_some_iff]
  simp only [Entry.search_eq_some_iff h.ascending]
  constructor
  · rintro ⟨entry, ⟨hmem, rfl⟩, rfl⟩
    exact hmem
  · exact fun hmem => ⟨_, ⟨hmem, rfl⟩, rfl⟩

/-- Inside an instruction no other one begins. -/
theorem at?_inside {entry : Entry} {distance : Nat}
    (hentry : entry ∈ (ofInstructions instructions).entries) (hpos : 0 < distance)
    (hlt : distance < entry.instruction.length) :
    (ofInstructions instructions).at? (entry.offset + distance) = none := by
  rw [Option.eq_none_iff_forall_ne_some]
  intro other hother
  have hmem := (at?_eq_some_iff (placed_ofInstructions instructions)).mp hother
  rcases Entry.precedes_or_precedes (pairwise_precedes_layout 0 instructions) hentry hmem with
    hsame | hprecedes | hprecedes
  · have := congrArg Entry.offset hsame
    simp only at this
    omega
  · simp only [Entry.Precedes] at hprecedes
    omega
  · have := hprecedes.offset_lt
    simp only at this
    omega

/-- **The offsets with an instruction** are those where instructions have been read and another
one follows. -/
theorem isSome_at?_ofInstructions_iff :
    ((ofInstructions instructions).at? offset).isSome ↔
      ∃ front back, instructions = front ++ back ∧ back ≠ [] ∧
        offset = (front.flatMap Instruction.bytes).length := by
  rw [Option.isSome_iff_exists]
  simp only [at?_eq_some_iff (placed_ofInstructions instructions)]
  constructor
  · rintro ⟨instruction, hmem⟩
    obtain ⟨front, back, hinstructions, hoffset⟩ := mem_layout_iff.mp hmem
    exact ⟨front, instruction :: back, hinstructions, List.cons_ne_nil _ _, hoffset⟩
  · rintro ⟨front, back, hinstructions, hback, hoffset⟩
    obtain ⟨instruction, back, rfl⟩ := List.exists_cons_of_ne_nil hback
    exact ⟨instruction, mem_layout_iff.mpr ⟨front, back, hinstructions, hoffset⟩⟩

/-- Instructions that others follow end before the end of all. -/
theorem length_flatMap_bytes_lt {front back : List Instruction} (hback : back ≠ []) :
    (front.flatMap Instruction.bytes).length <
      ((front ++ back).flatMap Instruction.bytes).length := by
  obtain ⟨instruction, back, rfl⟩ := List.exists_cons_of_ne_nil hback
  have hpos := instruction.length_pos
  rw [List.flatMap_append, List.flatMap_cons, List.length_append, List.length_append,
    Instruction.length_bytes]
  omega

/-- Behind the end of code no instruction begins. -/
theorem at?_of_byteLength_le (hle : (ofInstructions instructions).byteLength ≤ offset) :
    (ofInstructions instructions).at? offset = none := by
  rw [← Option.not_isSome_iff_eq_none, isSome_at?_ofInstructions_iff]
  rintro ⟨front, back, rfl, hback, rfl⟩
  rw [← length_bytes, bytes, instructions_ofInstructions] at hle
  exact Nat.not_le.mpr (length_flatMap_bytes_lt hback) hle

/-- **In code that was decoded**, an offset has an instruction exactly if the bytes before it are
code themselves, and another byte follows. -/
theorem isSome_at?_iff_of_decode {options : DecodeOptions} {bytes : List UInt8}
    (h : decode options bytes = .ok code) :
    (code.at? offset).isSome ↔
      offset < bytes.length ∧ ∃ front, decode options (bytes.take offset) = .ok front := by
  obtain ⟨hlength, instructions, hadmitted, rfl, rfl⟩ := decode_eq_ok_iff.mp h
  rw [isSome_at?_ofInstructions_iff]
  constructor
  · rintro ⟨front, back, rfl, hback, rfl⟩
    obtain ⟨hfront, -⟩ := List.forall_mem_append.mp hadmitted
    have hlt : (front.flatMap Instruction.bytes).length < _ := length_flatMap_bytes_lt hback
    have hshort := Nat.le_trans (Nat.le_of_lt hlt) hlength
    refine ⟨hlt, ?_⟩
    rw [List.flatMap_append, List.take_left]
    exact ⟨_, decode_flatMap hfront hshort⟩
  · -- the bytes before the offset are instructions, so they are the first ones of the code
    rintro ⟨hlt, code, hcode⟩
    obtain ⟨-, front, -, htake, -⟩ := decode_eq_ok_iff.mp hcode
    have hcut := List.take_append_drop offset (instructions.flatMap Instruction.bytes)
    rw [htake] at hcut
    obtain ⟨back, rfl, hdrop⟩ := exists_eq_append_of_flatMap hcut
    refine ⟨front, back, rfl, ?_, ?_⟩
    · rintro rfl
      exact absurd (List.drop_eq_nil_iff.mp hdrop) (Nat.not_le.mpr hlt)
    · have hfront := congrArg List.length htake
      rw [List.length_take, Nat.min_eq_left (Nat.le_of_lt hlt)] at hfront
      exact hfront

/-- **Which offsets have an instruction**. The entries of code stand back to back from offset zero
to the end. Looking an offset up gives the instruction of the entry there, and nothing inside an
instruction or behind the end. If the code was decoded, these are the offsets inside the array
before which the bytes can be decoded with the same options. -/
theorem at?_of_obtainable (h : code.Obtainable) :
    code.Placed ∧
      (∀ offset instruction,
        code.at? offset = some instruction ↔ ⟨offset, instruction⟩ ∈ code.entries) ∧
      (∀ entry ∈ code.entries, ∀ distance, 0 < distance → distance < entry.instruction.length →
        code.at? (entry.offset + distance) = none) ∧
      (∀ offset, code.byteLength ≤ offset → code.at? offset = none) ∧
      ∀ options bytes, decode options bytes = .ok code → ∀ offset,
        (code.at? offset).isSome ↔
          offset < bytes.length ∧ ∃ front, decode options (bytes.take offset) = .ok front := by
  obtain ⟨instructions, rfl⟩ := h.exists_eq
  have hplaced := placed_ofInstructions instructions
  exact ⟨hplaced, fun _ _ => at?_eq_some_iff hplaced, fun _ hentry _ => at?_inside hentry,
    fun _ => at?_of_byteLength_le, fun _ _ hdecode _ => isSome_at?_iff_of_decode hdecode⟩

/-- Instructions of two, four and one bytes, with an offset where the second one begins and one
inside it. -/
theorem at?_of_obtainable_marked :
    decode {} [0x12, 0x09, 0xC4, 0x38, 0x01, 0x00, 0x05] =
        .ok (ofInstructions [.ldc (.short 9), .fstore (.wide 256), .iconst .two]) ∧
      (ofInstructions [.ldc (.short 9), .fstore (.wide 256), .iconst .two]).at? 2 =
        some (.fstore (.wide 256)) ∧
      (∃ front, decode {} [0x12, 0x09] = .ok front) ∧
      (ofInstructions [.ldc (.short 9), .fstore (.wide 256), .iconst .two]).at? 4 = none ∧
      ¬∃ front, decode {} [0x12, 0x09, 0xC4, 0x38] = .ok front := by
  have h : decode {} [0x12, 0x09, 0xC4, 0x38, 0x01, 0x00, 0x05] =
      .ok (ofInstructions [.ldc (.short 9), .fstore (.wide 256), .iconst .two]) :=
    decode_eq_ok_iff.mpr ⟨by decide, _, fun _ _ _ => rfl, rfl, rfl⟩
  obtain ⟨-, hat, hinside, -, hdecoded⟩ := at?_of_obtainable (.decode h)
  have hfound := (hat 2 (.fstore (.wide 256))).mpr (by decide)
  have hnone := hinside ⟨2, .fstore (.wide 256)⟩ (by decide) 2 (by decide) (by decide)
  refine ⟨h, hfound, ?_, hnone, fun hfront => ?_⟩
  · exact ((hdecoded {} _ h 2).mp (Option.isSome_of_mem hfound)).2
  · have hsome := (hdecoded {} _ h 4).mpr ⟨by decide, hfront⟩
    rw [hnone] at hsome
    cases hsome

end Offsets

end Code

end Bytecode
