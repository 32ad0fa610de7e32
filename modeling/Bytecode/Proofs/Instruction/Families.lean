import Bytecode.Instruction.Consumption
import Bytecode.Instruction.Writing

/-!
# Stores of any family

A family of stores is a table of opcodes, and nothing is asked of the table: opcodes may be repeated
in it. Whatever it is, an operand that is decoded is written as it was read, and its slot fits the
form it was read in: a folded slot has an entry in the table, and a slot in one byte loses nothing.
The way back, from an operand to its bytes and to the same operand, is another matter. An opcode is
looked up in the table first, and its first entry counts; so operands are regained just for the
tables without repetition.

## Main definitions

* `StoreFamily.bytesAt?`: the bytes of a slot in a form that need not fit
* `StoreFamily.Unambiguous`: no opcode is repeated
* `StoreOperand.head`, `StoreOperand.Regained`: an operand is decoded from its own bytes

## Main results

* `StoreOperand.bytesAt?_slot`: the slot of an operand fits its form
* `StoreOperand.regained_of_unambiguous`, `StoreFamily.unambiguous_of_regained`: which families
  regain their operands
* `StoreOperand.decode_of_any_family`: decoding and writing of any family
-/

namespace Bytecode

open Reader

/-! ## Slots that fit their form -/

/-- **The bytes of a slot in a form**, which need not fit: `none` where a folded slot would have no
entry in the table, and where a slot would be cut to one byte. -/
def StoreFamily.bytesAt? (family : StoreFamily) (index : UInt16) : SlotForm → Option (List UInt8)
  | .compact => family.compact[index.toNat]?.map fun opcode => [opcode.toByte]
  | .byte =>
    if index.toNat < 256 then some [family.generic.toByte, UInt8.ofNat index.toNat] else none
  | .wide =>
    some [Opcode.wide.toByte, family.generic.toByte, Word.high index, Word.low index]

namespace StoreOperand

/-- **The slot of an operand fits its form**, and gives its bytes. -/
theorem bytesAt?_slot (operand : StoreOperand) :
    operand.family.bytesAt? operand.slot.index operand.slot.form = some operand.bytes := by
  rcases operand with ⟨family, slot | slot | slot⟩
  · show (family.compact[(Slot.compact slot).index.toNat]?).map _ = _
    rw [Slot.toNat_index_compact, Vector.getElem?_eq_getElem slot.isLt]
    rfl
  · have hslot : (Slot.byte slot).index.toNat < 256 := by
      rw [Slot.toNat_index_byte]
      exact slot.toNat_lt
    show (if (Slot.byte slot).index.toNat < 256 then _ else _) = _
    rw [if_pos hslot, Slot.toNat_index_byte, UInt8.ofNat_toNat]
    rfl
  · rfl

/-- A buffer receives the bytes of an operand. -/
theorem runAt_write_buffer (operand : StoreOperand) (held : Array UInt8) :
    (operand.write Sink.buffer).runAt held = (.ok (), held ++ operand.bytes.toArray) := by
  rcases operand with ⟨family, _ | _ | _⟩
  · rfl
  · rfl
  · rfl

end StoreOperand

/-! ## Looking an opcode up -/

namespace StoreFamily

variable {family : StoreFamily} {opcode : Opcode} {slot : Fin 4}

/-- **No opcode is repeated**, neither within the table nor as the generic one. -/
structure Unambiguous (family : StoreFamily) : Prop where
  distinct : ∀ slot other, family.compactOpcode slot = family.compactOpcode other → slot = other
  generic_ne : ∀ slot, family.compactOpcode slot ≠ family.generic

theorem compactSlot?_eq_none_iff :
    family.compactSlot? opcode = none ↔ ∀ slot, family.compactOpcode slot ≠ opcode := by
  rw [compactSlot?, List.find?_eq_none]
  simp

/-- Without repetition an opcode of the table has the slot at which it stands. -/
theorem Unambiguous.compactSlot?_compactOpcode (h : family.Unambiguous) (slot : Fin 4) :
    family.compactSlot? (family.compactOpcode slot) = some slot := by
  cases hfound : family.compactSlot? (family.compactOpcode slot) with
  | none => exact absurd rfl (compactSlot?_eq_none_iff.mp hfound slot)
  | some first => rw [h.distinct _ _ (compactOpcode_of_compactSlot? hfound)]

end StoreFamily

/-! ## Decoding what was written -/

namespace StoreOperand

variable {family : StoreFamily} {opcode : Opcode}

/-- The head of an operand. -/
def head (operand : StoreOperand) : Head := ⟨operand.opcode, operand.slot.form = .wide⟩

theorem runAt_decode_compact {slot : Fin 4} (h : family.compactSlot? opcode = some slot)
    (cursor : Cursor) :
    (decode family ⟨opcode, false⟩).runAt cursor = (.ok ⟨family, .compact slot⟩, cursor) := by
  simp only [decode, h]
  rfl

theorem runAt_decode_byte (h : family.compactSlot? family.generic = none) (position : Nat)
    (slot : UInt8) (rest : List UInt8) :
    (decode family ⟨family.generic, false⟩).runAt ⟨position, slot :: rest⟩ =
      (.ok ⟨family, .byte slot⟩, ⟨position + 1, rest⟩) := by
  simp only [decode, h, ne_eq, not_true_eq_false, if_false]
  rfl

theorem runAt_decode_wide (h : family.compactSlot? family.generic = none) (position : Nat)
    (slot : UInt16) (rest : List UInt8) :
    (decode family ⟨family.generic, true⟩).runAt
        ⟨position, Word.high slot :: Word.low slot :: rest⟩ =
      (.ok ⟨family, .wide slot⟩, ⟨position + 2, rest⟩) := by
  simp only [decode, h, ne_eq, not_true_eq_false, if_false, if_true]
  rw [runAt_bind_of_ok (runAt_word_cons _ _ _ _), Word.ofBytes_high_low]
  rfl

/-- **An operand is regained**: what is written behind its head is decoded as it, and nothing more
is read. -/
def Regained (operand : StoreOperand) : Prop :=
  ∃ run, (∀ held, (operand.write Sink.buffer).runAt held =
      (.ok (), held ++ (operand.head.bytes ++ run).toArray)) ∧
    ∀ position rest, (decode operand.family operand.head).runAt ⟨position, run ++ rest⟩ =
      (.ok operand, ⟨position + run.length, rest⟩)

/-- **A family without repetition regains its operands**, in whatever form. -/
theorem regained_of_unambiguous (h : family.Unambiguous) (slot : Slot) :
    Regained ⟨family, slot⟩ := by
  have hgeneric : family.compactSlot? family.generic = none :=
    StoreFamily.compactSlot?_eq_none_iff.mpr h.generic_ne
  cases slot with
  | compact slot =>
    refine ⟨[], runAt_write_buffer _, fun position rest => ?_⟩
    exact runAt_decode_compact (h.compactSlot?_compactOpcode slot) ⟨position, rest⟩
  | byte slot =>
    refine ⟨[slot], runAt_write_buffer _, fun position rest => ?_⟩
    exact runAt_decode_byte hgeneric position slot rest
  | wide slot =>
    refine ⟨[Word.high slot, Word.low slot], runAt_write_buffer _, fun position rest => ?_⟩
    exact runAt_decode_wide hgeneric position slot rest

end StoreOperand

namespace StoreFamily

open StoreOperand

variable {family : StoreFamily}

theorem ofIndex_compact (family : StoreFamily) (slot : Fin 4) :
    StoreOperand.ofIndex family (UInt16.ofNat slot.val) = ⟨family, .compact slot⟩ := by
  have hslot : (UInt16.ofNat slot.val).toNat = slot.val := Slot.toNat_index_compact slot
  unfold StoreOperand.ofIndex Slot.ofIndex
  rw [dif_pos (by rw [hslot]; exact slot.isLt)]
  simp only [hslot]

/-- An operand with a folded slot is regained only from the first entry of its opcode. -/
theorem compactSlot?_of_regained {slot : Fin 4} (h : Regained ⟨family, .compact slot⟩) :
    family.compactSlot? (family.compactOpcode slot) = some slot := by
  obtain ⟨run, -, hdecode⟩ := h
  cases hfound : family.compactSlot? (family.compactOpcode slot) with
  | none => exact absurd rfl (compactSlot?_eq_none_iff.mp hfound slot)
  | some first =>
    have hfirst := (hdecode 0 []).symm.trans (runAt_decode_compact hfound ⟨0, run ++ []⟩)
    simp only [Prod.mk.injEq, Except.ok.injEq, StoreOperand.mk.injEq, Slot.compact.injEq] at hfirst
    rw [hfirst.1.2]

/-- **Only a family without repetition regains its operands**, even if each is in its shortest
form. -/
theorem unambiguous_of_regained (h : ∀ index, (StoreOperand.ofIndex family index).Regained) :
    family.Unambiguous where
  distinct slot other hsame := by
    have hslot := compactSlot?_of_regained (ofIndex_compact family slot ▸ h _)
    have hother := compactSlot?_of_regained (ofIndex_compact family other ▸ h _)
    rw [hsame, hother] at hslot
    exact (Option.some.inj hslot).symm
  generic_ne slot hsame := by
    -- the first slot that is not folded in is decoded as a folded one
    obtain ⟨run, -, hdecode⟩ := h 4
    cases hfound : family.compactSlot? family.generic with
    | none => exact compactSlot?_eq_none_iff.mp hfound slot hsame
    | some first =>
      have hfirst := (hdecode 0 []).symm.trans (runAt_decode_compact hfound ⟨0, run ++ []⟩)
      simp only [Prod.mk.injEq, Except.ok.injEq] at hfirst
      cases hfirst.1

end StoreFamily

namespace StoreOperand

/-- **Decoding and writing, for any family**. An operand that is decoded has the opcode of the head
and the length of what was read, and is written as head and run were; and its slot fits the form.
The other way round, the shortest operand of every slot is regained from its bytes exactly if no
opcode is repeated in the family. -/
theorem decode_of_any_family (family : StoreFamily) :
    (∀ head cursor operand next, (decode family head).runAt cursor = (.ok operand, next) →
      ∃ run, cursor.MovesOver run next ∧ operand.family = family ∧ operand.opcode = head.opcode ∧
        operand.length = 1 + (if head.wide then 1 else 0) + run.length ∧
        (∀ held, (operand.write Sink.buffer).runAt held =
          (.ok (), held ++ (head.bytes ++ run).toArray)) ∧
        family.bytesAt? operand.slot.index operand.slot.form = some (head.bytes ++ run)) ∧
    ((∀ index, (ofIndex family index).Regained) ↔ family.Unambiguous) := by
  refine ⟨?_, StoreFamily.unambiguous_of_regained, fun h index => regained_of_unambiguous h _⟩
  intro head cursor operand next h
  obtain ⟨rfl, hopcode, run, hbytes, hmoves⟩ := decode_eq_ok h
  refine ⟨run, hmoves, rfl, hopcode, ?_, fun held => ?_, ?_⟩
  · rw [← length_bytes, hbytes, List.length_append, Head.length_bytes]
    split
    · rfl
    · rfl
  · rw [runAt_write_buffer, hbytes]
  · rw [bytesAt?_slot, hbytes]

/-- A family of four different opcodes with a fifth one, where a mark and a small slot in two bytes
are decoded; and a family that has its generic opcode in the table. -/
theorem decode_of_any_family_marked :
    (decode .float ⟨.fstore, true⟩).runAt ⟨2, [0, 7, 9]⟩ = (.ok ⟨.float, .wide 7⟩, ⟨4, [9]⟩) ∧
      (∃ run, Cursor.MovesOver ⟨2, [0, 7, 9]⟩ run ⟨4, [9]⟩ ∧
        StoreFamily.float.bytesAt? 7 .wide = some (Head.bytes ⟨.fstore, true⟩ ++ run)) ∧
      StoreFamily.float.Unambiguous ∧ (ofIndex .float 300).Regained ∧
      ¬∀ index, (ofIndex ⟨.ldc, #v[.wide, .ldc, .wide, .iconst0]⟩ index).Regained := by
  have hdecode : (decode .float ⟨.fstore, true⟩).runAt ⟨2, [0, 7, 9]⟩ =
      (.ok ⟨.float, .wide 7⟩, ⟨4, [9]⟩) := rfl
  have hfloat : StoreFamily.float.Unambiguous := ⟨by decide, by decide⟩
  obtain ⟨run, hmoves, -, -, -, -, hfits⟩ := (decode_of_any_family .float).1 _ _ _ _ hdecode
  refine ⟨hdecode, ⟨run, hmoves, hfits⟩, hfloat, (decode_of_any_family .float).2.mpr hfloat 300, ?_⟩
  intro hall
  exact ((decode_of_any_family _).2.mp hall).generic_ne 1 rfl

end StoreOperand

end Bytecode
