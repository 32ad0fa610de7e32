import Bytecode.Proofs.Code.Boundaries

/-!
# Decoding one array after another

Nothing that is read depends on where it stands: an instruction and a cause of refusal are the same
further on, at an offset that is as much greater. So decoding two arrays back to back is decoding
the first and then the second. If the first fails at a byte that is no opcode, or at a mark that is
out of place, then nothing behind it was looked at, and it fails in the same way whatever follows.

## Main definitions

* `DecodeError.shift`, `Entry.shift`: a cause and an entry further on
* `DecodeError.blamesByte`: the causes that point at a byte and not at the end of the array

## Main results

* `Instruction.Refusal.shift`, `Instruction.Refusal.append`: a cause further on, and with more bytes
  behind it
* `Code.decode_append`: decoding two arrays back to back
-/

namespace Bytecode

/-! ## Further on -/

/-- **The same cause further on**. An overlong array has no place. -/
def DecodeError.shift (distance : Nat) : DecodeError → DecodeError
  | unexpectedEnd offset needed available => unexpectedEnd (offset + distance) needed available
  | unknownOpcode byte offset => unknownOpcode byte (offset + distance)
  | illegalWide byte offset => illegalWide byte (offset + distance)
  | codeTooLong length limit => codeTooLong length limit

/-- The cause points at a byte that is there. -/
def DecodeError.blamesByte : DecodeError → Bool
  | unknownOpcode _ _ => true
  | illegalWide _ _ => true
  | _ => false

/-- The same instruction further on. -/
def Entry.shift (distance : Nat) (entry : Entry) : Entry :=
  ⟨entry.offset + distance, entry.instruction⟩

namespace Instruction

variable {allowWide : Bool} {position : Nat} {rest : List UInt8} {e : DecodeError}

/-- **A cause of refusal is the same further on**. -/
theorem Refusal.shift (h : Refusal allowWide position rest e) (distance : Nat) :
    Refusal allowWide (position + distance) rest (e.shift distance) := by
  cases h with
  | nothing => exact .nothing
  | unknown rest hbyte => exact .unknown rest hbyte
  | mark rest hwide => exact .mark rest hwide
  | markAtEnd hwide =>
    rw [DecodeError.shift, Nat.add_right_comm]
    exact .markAtEnd hwide
  | unknownMarked rest hwide hbyte =>
    rw [DecodeError.shift, Nat.add_right_comm]
    exact .unknownMarked rest hwide hbyte
  | misplacedMark rest hwide hopcode =>
    rw [DecodeError.shift, Nat.add_right_comm]
    exact .misplacedMark rest hwide hopcode
  | truncated hhead hrun =>
    rw [DecodeError.shift, Nat.add_right_comm]
    exact .truncated hhead hrun

/-- **A cause that blames a byte** stays, whatever bytes are put behind. -/
theorem Refusal.append (h : Refusal allowWide position rest e) (hblame : e.blamesByte = true)
    (more : List UInt8) : Refusal allowWide position (rest ++ more) e := by
  cases h with
  | unknown rest hbyte => exact .unknown (rest ++ more) hbyte
  | mark rest hwide => exact .mark (rest ++ more) hwide
  | unknownMarked rest hwide hbyte => exact .unknownMarked (rest ++ more) hwide hbyte
  | misplacedMark rest hwide hopcode => exact .misplacedMark (rest ++ more) hwide hopcode
  -- the other causes are missing bytes
  | nothing => cases hblame
  | markAtEnd hwide => cases hblame
  | truncated hhead hrun => cases hblame

end Instruction

namespace Code

theorem map_shift_layout (distance offset : Nat) (instructions : List Instruction) :
    (layout offset instructions).map (Entry.shift distance) =
      layout (offset + distance) instructions := by
  induction instructions generalizing offset with
  | nil => rfl
  | cons instruction rest ih =>
    rw [layout, List.map_cons, ih, layout, Nat.add_right_comm]
    rfl

/-! ## Back to back -/

section Append

variable {options : DecodeOptions} {front back : List UInt8}

theorem decode_append_of_ok {code code' : Code}
    (hlength : front.length + back.length ≤ options.maxCodeLength)
    (hfront : decode options front = .ok code) (hback : decode options back = .ok code') :
    decode options (front ++ back) =
      .ok ⟨code.entries ++ code'.entries.map (Entry.shift front.length)⟩ := by
  obtain ⟨-, instructions, hinstructions, rfl, rfl⟩ := decode_eq_ok_iff.mp hfront
  obtain ⟨-, others, hothers, rfl, rfl⟩ := decode_eq_ok_iff.mp hback
  refine decode_eq_ok_iff.mpr ⟨?_, instructions ++ others, ?_, ?_, ?_⟩
  · rwa [List.length_append]
  · exact List.forall_mem_append.mpr ⟨hinstructions, hothers⟩
  · rw [List.flatMap_append]
  · simp only [ofInstructions, layout_append, map_shift_layout]

theorem decode_append_of_error {code : Code} {e : DecodeError}
    (hlength : front.length + back.length ≤ options.maxCodeLength)
    (hfront : decode options front = .ok code) (hback : decode options back = .error e) :
    decode options (front ++ back) = .error (e.shift front.length) := by
  obtain ⟨-, instructions, hinstructions, rfl, rfl⟩ := decode_eq_ok_iff.mp hfront
  rcases decode_eq_error_iff.mp hback with
    ⟨hlong, -⟩ | ⟨-, others, rest, hothers, rfl, hrest, hrefusal⟩
  · omega
  · refine decode_eq_error_iff.mpr (.inr ⟨?_, instructions ++ others, rest, ?_, ?_, hrest, ?_⟩)
    · rwa [List.length_append]
    · exact List.forall_mem_append.mpr ⟨hinstructions, hothers⟩
    · rw [List.flatMap_append, List.append_assoc]
    · rw [List.flatMap_append, List.length_append, Nat.add_comm]
      exact hrefusal.shift _

theorem decode_append_of_blamesByte {e : DecodeError}
    (hlength : front.length + back.length ≤ options.maxCodeLength)
    (hblame : e.blamesByte = true) (hfront : decode options front = .error e) :
    decode options (front ++ back) = .error e := by
  rcases decode_eq_error_iff.mp hfront with
    ⟨-, rfl⟩ | ⟨-, instructions, rest, hinstructions, rfl, hrest, hrefusal⟩
  · cases hblame
  · refine decode_eq_error_iff.mpr
      (.inr ⟨?_, instructions, rest ++ back, hinstructions, ?_, ?_, hrefusal.append hblame back⟩)
    · rwa [List.length_append]
    · rw [List.append_assoc]
    · exact List.append_ne_nil_of_left_ne_nil hrest back

/-- **Decoding two arrays back to back**. After an array that is decoded, the other one gives its
own entries or its own error, further on. After one that fails at a byte, nothing matters. -/
theorem decode_append (hlength : front.length + back.length ≤ options.maxCodeLength) :
    (∀ code, decode options front = .ok code →
      (∀ code', decode options back = .ok code' →
        decode options (front ++ back) =
          .ok ⟨code.entries ++ code'.entries.map (Entry.shift front.length)⟩) ∧
      ∀ e, decode options back = .error e →
        decode options (front ++ back) = .error (e.shift front.length)) ∧
    ∀ e, e.blamesByte = true → decode options front = .error e →
      decode options (front ++ back) = .error e :=
  ⟨fun _ hfront => ⟨fun _ hback => decode_append_of_ok hlength hfront hback,
      fun _ hback => decode_append_of_error hlength hfront hback⟩,
    fun _ hblame hfront => decode_append_of_blamesByte hlength hblame hfront⟩

/-- A reference whose index looks like a mark, and a marked `bipush`, in either order. -/
theorem decode_append_marks :
    decode {} [0x12, 0xC4] = .ok (ofInstructions [.ldc (.short 0xC4)]) ∧
      decode {} [0x05, 0xC4, 0x10] = .error (.illegalWide 0x10 2) ∧
      decode {} ([0x12, 0xC4] ++ [0x12, 0xC4]) =
        .ok (ofInstructions [.ldc (.short 0xC4), .ldc (.short 0xC4)]) ∧
      decode {} ([0x12, 0xC4] ++ [0x05, 0xC4, 0x10]) = .error (.illegalWide 0x10 4) ∧
      decode {} ([0x05, 0xC4, 0x10] ++ [0x12, 0xC4]) = .error (.illegalWide 0x10 2) := by
  have hload : decode {} [0x12, 0xC4] = .ok (ofInstructions [.ldc (.short 0xC4)]) :=
    decode_eq_ok_iff.mpr ⟨by decide, [.ldc (.short 0xC4)], fun _ _ _ => rfl, rfl, rfl⟩
  have hrefusal : Instruction.Refusal true 1 [0xC4, 0x10] (.illegalWide 0x10 2) :=
    @Instruction.Refusal.misplacedMark true 1 .bipush [] rfl (by decide)
  have hmark : decode {} [0x05, 0xC4, 0x10] = .error (.illegalWide 0x10 2) :=
    decode_eq_error_iff.mpr <| .inr
      ⟨by decide, [.iconst .two], _, fun _ _ _ => rfl, rfl, List.cons_ne_nil _ _, hrefusal⟩
  have hafterLoad := (@decode_append {} [0x12, 0xC4] [0x12, 0xC4] (by decide)).1 _ hload
  have hbeforeMark := (@decode_append {} [0x12, 0xC4] [0x05, 0xC4, 0x10] (by decide)).1 _ hload
  exact ⟨hload, hmark, hafterLoad.1 _ hload, hbeforeMark.2 _ hmark,
    (decode_append (by decide)).2 _ rfl hmark⟩

end Append

end Code

end Bytecode
