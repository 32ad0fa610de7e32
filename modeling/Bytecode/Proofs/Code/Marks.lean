import Bytecode.Proofs.Code.Boundaries
import Mathlib.Order.Bounds.Basic

/-!
# Decoding where marks are refused

An array is decoded with marks admitted and with marks refused. Both ways read the same
instructions up to the first boundary at which a mark stands, and there the second one stops. A
byte that looks like a mark but belongs to an operand changes nothing, and neither does one behind
the place where decoding fails anyway.

## Main definitions

* `Code.marksReached`: the boundaries at which a mark stands

## Main results

* `Code.decode_refusing_cases`: refusing marks changes nothing, or decoding stops at the first one
* `Code.decode_refusing_marks`: what this means for code and for failures
-/

namespace Bytecode

namespace Instruction

variable {position : Nat} {rest : List UInt8} {e : DecodeError}

theorem admitted_false_iff {instruction : Instruction} :
    instruction.Admitted false ↔ instruction.isMarked = false := by
  rw [Admitted, ← Bool.not_eq_true]
  exact ⟨fun h hmarked => Bool.false_ne_true (h hmarked), fun h hmarked => absurd hmarked h⟩

theorem forall_admitted_false_iff {instructions : List Instruction} :
    (∀ instruction ∈ instructions, instruction.Admitted false) ↔
      ∀ instruction ∈ instructions, instruction.isMarked = false :=
  forall₂_congr fun _ _ => admitted_false_iff

theorem forall_admitted_true (instructions : List Instruction) :
    ∀ instruction ∈ instructions, instruction.Admitted true :=
  fun instruction _ => instruction.admitted_true

/-- The bytes of a marked instruction open with the mark. -/
theorem exists_bytes_eq_of_isMarked {instruction : Instruction}
    (h : instruction.isMarked = true) :
    ∃ run, instruction.bytes = Opcode.wide.toByte :: run := by
  rw [bytes_eq_head_append, Head.bytes, head, h]
  exact ⟨_, rfl⟩

/-- The bytes of an instruction without a mark open with another byte. -/
theorem bytes_append_ne_mark {instruction : Instruction} (h : instruction.isMarked = false)
    (run run' : List UInt8) : instruction.bytes ++ run ≠ Opcode.wide.toByte :: run' := by
  rw [bytes_eq_head_append, Head.bytes, head, h]
  intro hbytes
  exact instruction.opcode_ne_wide (Opcode.toByte_injective (List.cons.inj hbytes).1)

/-- **A cause for refusing marks** is a mark, or it is a cause where marks are admitted too. -/
theorem Refusal.mark_or_allowed (h : Refusal false position rest e) :
    (∃ run, rest = Opcode.wide.toByte :: run ∧ e = .illegalWide Opcode.wide.toByte position) ∨
      Refusal true position rest e := by
  cases h with
  | nothing => exact .inr .nothing
  | unknown run hbyte => exact .inr (.unknown run hbyte)
  | mark run _ => exact .inl ⟨run, rfl, rfl⟩
  | truncated hhead hrun =>
    refine .inr (.truncated ⟨hhead.opcode_ne_wide, fun hwide => ?_⟩ hrun)
    exact ⟨(hhead.of_wide hwide).1, rfl⟩
  -- the other causes look at what follows an admitted mark
  | markAtEnd hwide => cases hwide
  | unknownMarked run hwide _ => cases hwide
  | misplacedMark run hwide _ => cases hwide

/-- Where marks are refused, a mark is all that is looked at. -/
theorem Refusal.eq_illegalWide_of_mark {run : List UInt8}
    (h : Refusal false position (Opcode.wide.toByte :: run) e) :
    e = .illegalWide Opcode.wide.toByte position := by
  have hread := runAt_read_of_refusal h
  rw [runAt_read_of_refused_mark] at hread
  cases hread
  rfl

end Instruction

namespace Code

/-- **The boundaries at which a mark stands**, among those that decoding reaches. -/
def marksReached (options : DecodeOptions) (bytes : List UInt8) : Set Nat :=
  {offset | ∃ rest, Reaches options bytes ⟨offset, Opcode.wide.toByte :: rest⟩}

variable {limit : Nat} {bytes : List UInt8}

/-! ## The first mark -/

section First

/-- **No mark stands before the end of instructions without marks**, however the bytes are split
into instructions. -/
theorem length_le_of_mark {instructions others : List Instruction} {rest rest' : List UInt8}
    (hunmarked : ∀ instruction ∈ instructions, instruction.isMarked = false)
    (h : instructions.flatMap Instruction.bytes ++ rest =
      others.flatMap Instruction.bytes ++ Opcode.wide.toByte :: rest') :
    (instructions.flatMap Instruction.bytes).length ≤
      (others.flatMap Instruction.bytes).length := by
  induction instructions generalizing others with
  | nil => exact Nat.zero_le _
  | cons instruction instructions ih =>
    obtain ⟨hfirst, hrest⟩ := List.forall_mem_cons.mp hunmarked
    rw [List.flatMap_cons, List.append_assoc] at h
    cases others with
    | nil => exact absurd h (Instruction.bytes_append_ne_mark hfirst _ _)
    | cons other others =>
      rw [List.flatMap_cons, List.append_assoc] at h
      obtain ⟨rfl, htail⟩ := Instruction.bytes_append_inj h
      rw [List.flatMap_cons, List.flatMap_cons, List.length_append, List.length_append]
      exact Nat.add_le_add_left (ih hrest htail) _

/-- **The first boundary at which a mark stands** is the one behind instructions without marks. -/
theorem isLeast_marksReached {instructions : List Instruction} {rest : List UInt8}
    (hunmarked : ∀ instruction ∈ instructions, instruction.isMarked = false)
    (hbytes : bytes = instructions.flatMap Instruction.bytes ++ Opcode.wide.toByte :: rest)
    (hlength : bytes.length ≤ limit) :
    IsLeast (marksReached ⟨limit, true⟩ bytes)
      (instructions.flatMap Instruction.bytes).length := by
  constructor
  · exact ⟨rest, reaches_iff.mpr
      ⟨hlength, instructions, Instruction.forall_admitted_true _, hbytes, rfl⟩⟩
  · rintro offset ⟨rest', hreached⟩
    obtain ⟨-, others, -, hothers, rfl⟩ := reaches_iff.mp hreached
    exact length_le_of_mark hunmarked (hbytes.symm.trans hothers)

/-- No boundary has a mark if the array is instructions without marks, with nothing behind them or
something else that is refused. -/
theorem marksReached_eq_empty {instructions : List Instruction} {rest : List UInt8}
    (hunmarked : ∀ instruction ∈ instructions, instruction.isMarked = false)
    (hbytes : bytes = instructions.flatMap Instruction.bytes ++ rest)
    (hmark : ∀ run, rest ≠ Opcode.wide.toByte :: run)
    (hrest : rest = [] ∨ ∃ position e, Instruction.Refusal true position rest e) :
    marksReached ⟨limit, true⟩ bytes = ∅ := by
  rw [Set.eq_empty_iff_forall_notMem]
  rintro offset ⟨rest', hreached⟩
  obtain ⟨-, others, hothers, hbytes', rfl⟩ := reaches_iff.mp hreached
  have hsplit := hbytes.symm.trans hbytes'
  have hle := length_le_of_mark hunmarked hsplit
  rcases hrest with rfl | ⟨position, e, hrefusal⟩
  · -- the mark would stand behind the end of the array
    have htotal := congrArg List.length hsplit
    simp only [List.append_nil, List.length_append, List.length_cons] at htotal
    omega
  · -- the mark would be what is refused
    have hge := length_le_of_refusal hrefusal hothers hsplit
    obtain ⟨-, hsame⟩ := List.append_inj hsplit (Nat.le_antisymm hle hge)
    exact hmark rest' hsame

end First

/-! ## Two ways to decode -/

section Refusing

/-- **Refusing marks changes nothing**, if no boundary that is reached has one; and otherwise the
first such mark is reported. -/
theorem decode_refusing_cases (limit : Nat) (bytes : List UInt8) :
    (marksReached ⟨limit, true⟩ bytes = ∅ ∧
        decode ⟨limit, false⟩ bytes = decode ⟨limit, true⟩ bytes) ∨
      ∃ offset, IsLeast (marksReached ⟨limit, true⟩ bytes) offset ∧
        decode ⟨limit, false⟩ bytes = .error (.illegalWide Opcode.wide.toByte offset) := by
  rcases decode_cases ⟨limit, false⟩ bytes with ⟨hlong, hdecode⟩ |
    ⟨hlength, instructions, hadmitted, hend⟩
  · -- an overlong array is not looked at
    refine .inl ⟨?_, hdecode.trans (Eq.symm (decode_of_too_long hlong))⟩
    rw [Set.eq_empty_iff_forall_notMem]
    rintro offset ⟨rest, hreached⟩
    exact Nat.not_le.mpr hlong (reaches_iff.mp hreached).1
  have hunmarked := Instruction.forall_admitted_false_iff.mp hadmitted
  have hallowed := Instruction.forall_admitted_true instructions
  rcases hend with ⟨hbytes, hdecode⟩ | ⟨rest, e, hbytes, hrest, hrefusal, hdecode⟩
  · refine .inl ⟨marksReached_eq_empty hunmarked (hbytes.trans (List.append_nil _).symm)
      (fun run => (List.cons_ne_nil _ run).symm) (.inl rfl), hdecode.trans ?_⟩
    exact Eq.symm (decode_eq_ok_iff.mpr ⟨hlength, instructions, hallowed, hbytes, rfl⟩)
  · by_cases hmark : ∃ run, rest = Opcode.wide.toByte :: run
    · obtain ⟨run, rfl⟩ := hmark
      refine .inr ⟨_, isLeast_marksReached hunmarked hbytes hlength, ?_⟩
      rw [hdecode, hrefusal.eq_illegalWide_of_mark]
    · have hsame : Instruction.Refusal true _ rest e :=
        hrefusal.mark_or_allowed.resolve_left fun ⟨run, hrun, _⟩ => hmark ⟨run, hrun⟩
      refine .inl ⟨marksReached_eq_empty hunmarked hbytes (fun run hrun => hmark ⟨run, hrun⟩)
        (.inr ⟨_, e, hsame⟩), hdecode.trans ?_⟩
      exact Eq.symm (decode_eq_error_iff.mpr
        (.inr ⟨hlength, instructions, rest, hallowed, hbytes, hrest, hsame⟩))

/-- In code that was decoded, the first marked instruction stands at the first mark. -/
theorem isLeast_marksReached_of_find? {code : Code} {entry : Entry}
    (h : decode ⟨limit, true⟩ bytes = .ok code)
    (hfind : (code.entries.find? fun entry => entry.instruction.isMarked) = some entry) :
    IsLeast (marksReached ⟨limit, true⟩ bytes) entry.offset := by
  obtain ⟨hlength, instructions, -, hbytes, rfl⟩ := decode_eq_ok_iff.mp h
  obtain ⟨hmarked, before, after, hentries, hbefore⟩ := List.find?_eq_some_iff_append.mp hfind
  obtain ⟨hinstructions, hoffset⟩ := cut_of_layout_eq hentries
  obtain ⟨run, hrun⟩ := Instruction.exists_bytes_eq_of_isMarked hmarked
  have hunmarked : ∀ instruction ∈ before.map Entry.instruction,
      instruction.isMarked = false := by
    intro instruction hmem
    obtain ⟨earlier, hearlier, rfl⟩ := List.mem_map.mp hmem
    simpa using hbefore earlier hearlier
  have hsplit : bytes = (before.map Entry.instruction).flatMap Instruction.bytes ++
      Opcode.wide.toByte :: (run ++ (after.map Entry.instruction).flatMap Instruction.bytes) := by
    rw [hbytes, hinstructions, List.flatMap_append, List.flatMap_cons, hrun, List.cons_append]
  rw [hoffset]
  exact isLeast_marksReached hunmarked hsplit hlength

theorem decode_refusing_of_isLeast {offset : Nat}
    (h : IsLeast (marksReached ⟨limit, true⟩ bytes) offset) :
    decode ⟨limit, false⟩ bytes = .error (.illegalWide Opcode.wide.toByte offset) := by
  rcases decode_refusing_cases limit bytes with ⟨hnone, -⟩ | ⟨first, hfirst, hdecode⟩
  · rw [hnone] at h
    exact absurd h.1 (Set.notMem_empty offset)
  · rw [h.unique hfirst]
    exact hdecode

theorem decode_refusing_of_empty (h : marksReached ⟨limit, true⟩ bytes = ∅) :
    decode ⟨limit, false⟩ bytes = decode ⟨limit, true⟩ bytes := by
  rcases decode_refusing_cases limit bytes with ⟨-, hdecode⟩ | ⟨first, hfirst, -⟩
  · exact hdecode
  · rw [h] at hfirst
    exact absurd hfirst.1 (Set.notMem_empty first)

/-- **Code without marked instructions** is what is still decoded, as the same code. -/
theorem decode_refusing_eq_ok_iff {code : Code} :
    decode ⟨limit, false⟩ bytes = .ok code ↔
      decode ⟨limit, true⟩ bytes = .ok code ∧
        ∀ instruction ∈ code.instructions, instruction.isMarked = false := by
  constructor
  · intro h
    obtain ⟨hlength, instructions, hadmitted, hbytes, rfl⟩ := decode_eq_ok_iff.mp h
    have hallowed := Instruction.forall_admitted_true instructions
    refine ⟨decode_eq_ok_iff.mpr ⟨hlength, instructions, hallowed, hbytes, rfl⟩, ?_⟩
    rw [instructions_ofInstructions]
    exact Instruction.forall_admitted_false_iff.mp hadmitted
  · rintro ⟨h, hunmarked⟩
    obtain ⟨hlength, instructions, -, hbytes, rfl⟩ := decode_eq_ok_iff.mp h
    rw [instructions_ofInstructions] at hunmarked
    have hadmitted := Instruction.forall_admitted_false_iff.mpr hunmarked
    exact decode_eq_ok_iff.mpr ⟨hlength, instructions, hadmitted, hbytes, rfl⟩

/-- **What refusing marks changes**. It gives the same code, if this has no marked instruction, and
an error at the first one, if it has. What fails with marks admitted fails in the same way, unless
a boundary with a mark is reached before: then the first such mark is reported. -/
theorem decode_refusing_marks (limit : Nat) (bytes : List UInt8) :
    (∀ code, decode ⟨limit, false⟩ bytes = .ok code ↔
      decode ⟨limit, true⟩ bytes = .ok code ∧
        ∀ instruction ∈ code.instructions, instruction.isMarked = false) ∧
    (∀ code entry, decode ⟨limit, true⟩ bytes = .ok code →
      (code.entries.find? fun entry => entry.instruction.isMarked) = some entry →
        decode ⟨limit, false⟩ bytes = .error (.illegalWide 0xC4 entry.offset)) ∧
    ∀ e, decode ⟨limit, true⟩ bytes = .error e →
      (marksReached ⟨limit, true⟩ bytes = ∅ → decode ⟨limit, false⟩ bytes = .error e) ∧
      ∀ offset, IsLeast (marksReached ⟨limit, true⟩ bytes) offset →
        decode ⟨limit, false⟩ bytes = .error (.illegalWide 0xC4 offset) :=
  ⟨fun _ => decode_refusing_eq_ok_iff,
    fun _ _ hcode hfind => decode_refusing_of_isLeast (isLeast_marksReached_of_find? hcode hfind),
    fun _ herror => ⟨fun hnone => (decode_refusing_of_empty hnone).trans herror,
      fun _ => decode_refusing_of_isLeast⟩⟩

/-- Two marked stores behind an `iconst`; a `bipush` of a byte that looks like a mark, and then a
mark that is out of place; and an unknown byte, with a mark in the operand before it and another
one behind it. -/
theorem decode_refusing_marks_first :
    decode ⟨9, true⟩ [0x05, 0xC4, 0x38, 0x00, 0x07, 0xC4, 0x38, 0x01, 0x00] =
        .ok (ofInstructions [.iconst .two, .fstore (.wide 7), .fstore (.wide 256)]) ∧
      decode ⟨9, false⟩ [0x05, 0xC4, 0x38, 0x00, 0x07, 0xC4, 0x38, 0x01, 0x00] =
        .error (.illegalWide 0xC4 1) ∧
      decode ⟨9, true⟩ [0x10, 0xC4, 0xC4, 0x10] = .error (.illegalWide 0x10 3) ∧
      IsLeast (marksReached ⟨9, true⟩ [0x10, 0xC4, 0xC4, 0x10]) 2 ∧
      decode ⟨9, false⟩ [0x10, 0xC4, 0xC4, 0x10] = .error (.illegalWide 0xC4 2) ∧
      decode ⟨9, true⟩ [0x12, 0xC4, 0xFF, 0xC4] = .error (.unknownOpcode 0xFF 2) ∧
      marksReached ⟨9, true⟩ [0x12, 0xC4, 0xFF, 0xC4] = ∅ ∧
      decode ⟨9, false⟩ [0x12, 0xC4, 0xFF, 0xC4] = .error (.unknownOpcode 0xFF 2) := by
  have hstores : decode ⟨9, true⟩ [0x05, 0xC4, 0x38, 0x00, 0x07, 0xC4, 0x38, 0x01, 0x00] =
      .ok (ofInstructions [.iconst .two, .fstore (.wide 7), .fstore (.wide 256)]) :=
    decode_eq_ok_iff.mpr ⟨by decide, _, fun _ _ _ => rfl, rfl, rfl⟩
  have hmisplaced : Instruction.Refusal true 2 [0xC4, 0x10] (.illegalWide 0x10 3) :=
    @Instruction.Refusal.misplacedMark true 2 .bipush [] rfl (by decide)
  have hpush : decode ⟨9, true⟩ [0x10, 0xC4, 0xC4, 0x10] = .error (.illegalWide 0x10 3) :=
    decode_eq_error_iff.mpr <| .inr
      ⟨by decide, [.bipush (-60)], _, fun _ _ _ => rfl, rfl, List.cons_ne_nil _ _, hmisplaced⟩
  have hleast : IsLeast (marksReached ⟨9, true⟩ [0x10, 0xC4, 0xC4, 0x10]) 2 :=
    @isLeast_marksReached 9 _ [.bipush (-60)] [0x10] (by simp [Instruction.isMarked]) rfl
      (by decide)
  have hunknown : Instruction.Refusal true 2 [0xFF, 0xC4] (.unknownOpcode 0xFF 2) :=
    .unknown [0xC4] rfl
  have hload : decode ⟨9, true⟩ [0x12, 0xC4, 0xFF, 0xC4] = .error (.unknownOpcode 0xFF 2) :=
    decode_eq_error_iff.mpr <| .inr
      ⟨by decide, [.ldc (.short 0xC4)], _, fun _ _ _ => rfl, rfl, List.cons_ne_nil _ _, hunknown⟩
  have hnone : marksReached ⟨9, true⟩ [0x12, 0xC4, 0xFF, 0xC4] = ∅ :=
    @marksReached_eq_empty 9 _ [.ldc (.short 0xC4)] [0xFF, 0xC4] (by simp [Instruction.isMarked])
      rfl (fun run hrun => absurd (List.cons.inj hrun).1 (by decide)) (.inr ⟨2, _, hunknown⟩)
  exact ⟨hstores, (decode_refusing_marks 9 _).2.1 _ _ hstores rfl, hpush, hleast,
    ((decode_refusing_marks 9 _).2.2 _ hpush).2 _ hleast, hload, hnone,
    ((decode_refusing_marks 9 _).2.2 _ hload).1 hnone⟩

end Refusing

end Code

end Bytecode
