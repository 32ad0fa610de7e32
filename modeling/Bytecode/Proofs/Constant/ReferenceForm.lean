import Bytecode.Instruction.Writing
import Bytecode.Proofs.Instruction.Stream
import Mathlib.Data.List.Basic
import Mathlib.Data.List.Induction

/-!
# The form of a reference over time

A reference to a constant may be constructed, pointed at other indices, and read in the long form,
in any order. Its opcode and its length are never stale: they follow from the index, except that a
reference keeps the long form of an index that would fit in one byte, from a read in this form up to
the next step that succeeds. This is so because a step that succeeds forgets the reference it is
applied to, so the last one alone decides; and references are equal just if they are written alike.

## Main definitions

* `ConstantRef.Step`, `ConstantRef.Step.apply`: the steps, and what one makes of a reference
* `ConstantRef.afterAll`, `ConstantRef.lastSuccess`: a reference after steps, and the last step that
  succeeded
* `ConstantRef.Step.LeadsTo`: the reference that a step leads to
* `ConstantRef.keepsLong`: the long form of an index that would fit in one byte
* `ConstantRef.Shows`: a reference in the form that a step leaves behind

## Main results

* `ConstantRef.Step.apply_eq_ok_iff`: a step that succeeds forgets the reference
* `ConstantRef.leadsTo_lastSuccess`: the last step that succeeded decides
* `ConstantRef.eq_iff_index_keepsLong`: a reference is its index and whether the long form is kept
* `ConstantRef.form_after_steps`: the form of a reference after any steps
-/

namespace Bytecode

/-- **The number that bytes spell**, the highest byte first. -/
def Word.spelled (bytes : List UInt8) : Nat :=
  bytes.foldl (fun number byte => number * 256 + byte.toNat) 0

namespace ConstantRef

open Reader

/-! ## Steps -/

/-- **A step** on a reference. -/
inductive Step where
  -- a reference constructed from an index takes its place
  | construct (index : UInt16)
  | setIndex (index : UInt16)
  -- a reference read in the long form takes its place
  | readLong (cursor : Cursor)

namespace Step

/-- What a step makes of a reference. Only a read can fail. -/
def apply (ref : ConstantRef) : Step → Except DecodeError ConstantRef
  | construct index => .ok (ofIndex index)
  | setIndex index => .ok (ref.setIndex index)
  | readLong cursor => (decodeLong.runAt cursor).1

/-- The step succeeds. -/
def succeeds : Step → Bool
  | construct _ => true
  | setIndex _ => true
  | readLong cursor => (decodeLong.runAt cursor).1.isOk

/-- The step reads a reference. -/
def isRead : Step → Bool
  | readLong _ => true
  | _ => false

/-- **The step reads an index in the long form** that would fit in one byte. -/
def ReadsSmall (step : Step) : Prop :=
  ∃ cursor read next, step = readLong cursor ∧ decodeLong.runAt cursor = (.ok read, next) ∧
    read.index.toNat ≤ 255

/-- **The reference that a step leads to**. Where it came from plays no part. -/
inductive LeadsTo : Step → ConstantRef → Prop
  | construct (index : UInt16) : LeadsTo (construct index) (ofIndex index)
  | setIndex (index : UInt16) : LeadsTo (setIndex index) (ofIndex index)
  | readLong {cursor next : Cursor} {index : UInt16} (h : word.runAt cursor = (.ok index, next)) :
      LeadsTo (readLong cursor) (long index)

end Step

/-- The reference after one more step: one that fails leaves it as it was. -/
def after (ref : ConstantRef) (step : Step) : ConstantRef :=
  match step.apply ref with
  | .ok next => next
  | .error _ => ref

/-- **The reference after steps**, which begin with its construction from an index. A reference that
was read at first is no other case: it is the same as if one had been constructed before. -/
def afterAll (index : UInt16) (steps : List Step) : ConstantRef :=
  steps.foldl after (ofIndex index)

/-- **The last step that succeeded**. If all have failed it is the construction. -/
def lastSuccess (index : UInt16) (steps : List Step) : Step :=
  (steps.filter Step.succeeds).getLastD (.construct index)

/-! ## The last step decides -/

section Steps

variable {step : Step} {ref next : ConstantRef}

theorem runAt_decodeLong_eq_ok_iff {cursor cursor' : Cursor} :
    decodeLong.runAt cursor = (.ok ref, cursor') ↔
      ∃ index, word.runAt cursor = (.ok index, cursor') ∧ ref = long index := by
  constructor
  · intro h
    obtain ⟨index, hword, rfl⟩ := runAt_bind_pure_eq_ok h
    exact ⟨index, hword, rfl⟩
  · rintro ⟨index, hword, rfl⟩
    exact runAt_bind_of_ok hword _

/-- **A step that succeeds forgets the reference** it is applied to. -/
theorem Step.apply_eq_ok_iff : step.apply ref = .ok next ↔ step.LeadsTo next := by
  constructor
  · intro h
    cases step with
    | construct index =>
      cases h
      exact .construct index
    | setIndex index =>
      cases h
      exact .setIndex index
    | readLong cursor =>
      obtain ⟨index, hword, rfl⟩ := runAt_decodeLong_eq_ok_iff.mp (Prod.ext h rfl)
      exact .readLong hword
  · intro h
    cases h with
    | construct index => rfl
    | setIndex index => rfl
    | readLong hword => exact congrArg Prod.fst (runAt_decodeLong_eq_ok_iff.mpr ⟨_, hword, rfl⟩)

theorem Step.succeeds_iff (ref : ConstantRef) :
    step.succeeds = true ↔ ∃ next, step.apply ref = .ok next := by
  cases step with
  | construct index => exact ⟨fun _ => ⟨_, rfl⟩, fun _ => rfl⟩
  | setIndex index => exact ⟨fun _ => ⟨_, rfl⟩, fun _ => rfl⟩
  | readLong cursor =>
    simp only [succeeds, apply]
    cases (decodeLong.runAt cursor).1 <;> simp [Except.isOk, Except.toBool]

theorem lastSuccess_concat (index : UInt16) (steps : List Step) (step : Step) :
    lastSuccess index (steps ++ [step]) =
      if step.succeeds = true then step else lastSuccess index steps := by
  rw [lastSuccess, List.filter_append, List.filter_cons, List.filter_nil]
  split
  · exact List.getLastD_concat
  · rw [List.append_nil, lastSuccess]

/-- **The last step that succeeded decides** what the reference is. -/
theorem leadsTo_lastSuccess (index : UInt16) (steps : List Step) :
    (lastSuccess index steps).LeadsTo (afterAll index steps) := by
  induction steps using List.reverseRecOn with
  | nil => exact .construct index
  | append_singleton steps step ih =>
    rw [afterAll, List.foldl_concat, ← afterAll, lastSuccess_concat, after]
    have hsucceeds := step.succeeds_iff (afterAll index steps)
    cases happly : step.apply (afterAll index steps) with
    | ok next =>
      rw [if_pos (hsucceeds.mpr ⟨next, happly⟩)]
      exact Step.apply_eq_ok_iff.mp happly
    | error e =>
      -- nothing has changed, neither the reference nor the last success
      have hfails : ¬step.succeeds = true := by
        rw [hsucceeds, happly]
        rintro ⟨next, ⟨⟩⟩
      rw [if_neg hfails]
      exact ih

end Steps

/-! ## Forms -/

section Forms

variable {step : Step} {ref a b : ConstantRef}

/-- **The long form is kept** for an index that would fit in one byte. -/
def keepsLong (ref : ConstantRef) : Bool :=
  ref.isWide && decide (ref.index.toNat ≤ 255)

theorem keepsLong_iff : ref.keepsLong = true ↔ ref.isWide = true ∧ ref.index.toNat ≤ 255 := by
  rw [keepsLong, Bool.and_eq_true, decide_eq_true_eq]

/-- **A large index has the long form** anyway, and it is then not one that is kept. -/
theorem isWide_iff : ref.isWide = true ↔ ref.keepsLong = true ∨ 255 < ref.index.toNat := by
  rw [keepsLong_iff]
  constructor
  · intro hwide
    rcases Nat.lt_or_ge 255 ref.index.toNat with hlarge | hsmall
    · exact .inr hlarge
    · exact .inl ⟨hwide, hsmall⟩
  · rintro (⟨hwide, -⟩ | hlarge)
    · exact hwide
    · cases ref with
      | short index =>
        have := index.toNat_lt
        rw [toNat_index_short] at hlarge
        omega
      | long index => rfl

theorem opcode_eq (ref : ConstantRef) : ref.opcode = if ref.isWide then .ldcW else .ldc := by
  cases ref <;> rfl

theorem length_eq (ref : ConstantRef) : ref.length = if ref.isWide then 3 else 2 := by
  cases ref <;> rfl

theorem isWide_ofIndex_iff {index : UInt16} : (ofIndex index).isWide = true ↔ 255 < index.toNat := by
  unfold ofIndex
  split
  · next h =>
    simp only [isWide, Bool.false_eq_true, false_iff]
    omega
  · next h =>
    simp only [isWide, true_iff]
    omega

/-- **A reference is its index**, and whether the long form is kept for it. -/
theorem eq_iff_index_keepsLong : a = b ↔ a.index = b.index ∧ a.keepsLong = b.keepsLong := by
  constructor
  · rintro rfl
    exact ⟨rfl, rfl⟩
  · rintro ⟨hindex, hkeeps⟩
    have hwide : a.isWide = b.isWide := by
      rw [Bool.eq_iff_iff, isWide_iff, isWide_iff, hindex, hkeeps]
    apply eq_of_index_of_length hindex
    rw [length_eq, length_eq, hwide]

theorem keepsLong_ofIndex (index : UInt16) : (ofIndex index).keepsLong = false := by
  rw [← Bool.not_eq_true, keepsLong_iff, isWide_ofIndex_iff, index_ofIndex]
  omega

/-- **A reference is the one constructed from its index**, unless it keeps the long form. -/
theorem eq_ofIndex_iff : ref = ofIndex ref.index ↔ ref.keepsLong = false := by
  rw [eq_iff_index_keepsLong, index_ofIndex, keepsLong_ofIndex]
  simp only [true_and]

/-- The bytes of a reference are its opcode and its index, of which nothing is cut off. -/
theorem exists_bytes_eq (ref : ConstantRef) :
    ∃ operand, ref.bytes = ref.opcode.toByte :: operand ∧
      Word.spelled operand = ref.index.toNat := by
  cases ref with
  | short index =>
    refine ⟨[index], rfl, ?_⟩
    rw [toNat_index_short]
    exact Nat.zero_add _
  | long index =>
    refine ⟨[Word.high index, Word.low index], rfl, ?_⟩
    show (0 * 256 + (Word.high index).toNat) * 256 + (Word.low index).toNat = index.toNat
    rw [Word.toNat_high, Word.toNat_low]
    omega

theorem runAt_write_buffer (ref : ConstantRef) (held : Array UInt8) :
    (ref.write Sink.buffer).runAt held = (.ok (), held ++ ref.bytes.toArray) := by
  cases ref <;> rfl

theorem bytes_injective (h : a.bytes = b.bytes) : a = b :=
  Instruction.ldc.inj (Instruction.bytes_injective h)

/-- **References are equal** exactly if they are written alike. -/
theorem eq_iff_runAt_write_eq :
    a = b ↔ (a.write Sink.buffer).runAt #[] = (b.write Sink.buffer).runAt #[] := by
  constructor
  · rintro rfl
    rfl
  · intro h
    rw [runAt_write_buffer, runAt_write_buffer] at h
    apply bytes_injective
    simpa using congrArg Prod.snd h

/-- **The form that a step leaves behind** is the long one if the index does not fit in one byte, or
if the step read it in this form. -/
theorem Step.LeadsTo.isWide_iff (h : step.LeadsTo ref) :
    ref.isWide = true ↔ 255 < ref.index.toNat ∨ step.isRead = true := by
  cases h with
  | construct index => simp [isWide_ofIndex_iff, isRead]
  | setIndex index => simp [isWide_ofIndex_iff, isRead]
  | readLong hword => simp [isWide, isRead]

/-- **The long form is kept** from a read of a small index in this form, and from no other step. -/
theorem Step.LeadsTo.keepsLong_iff (h : step.LeadsTo ref) :
    ref.keepsLong = true ↔ step.ReadsSmall := by
  constructor
  · intro hkeeps
    cases h with
    | construct index | setIndex index =>
      -- the form chosen for an index is the one that it needs
      rw [keepsLong_ofIndex] at hkeeps
      cases hkeeps
    | readLong hword =>
      obtain ⟨-, hsmall⟩ := ConstantRef.keepsLong_iff.mp hkeeps
      exact ⟨_, _, _, rfl, runAt_decodeLong_eq_ok_iff.mpr ⟨_, hword, rfl⟩, hsmall⟩
  · rintro ⟨cursor, read, next, rfl, hread, hsmall⟩
    obtain ⟨index, hword, rfl⟩ := runAt_decodeLong_eq_ok_iff.mp hread
    cases h with
    | readLong hword' =>
      -- a cursor is read in one way, so both references are the same
      rw [hword] at hword'
      cases hword'
      exact ConstantRef.keepsLong_iff.mpr ⟨rfl, hsmall⟩

end Forms

/-! ## The form after steps -/

/-- **A reference is in the form that a step leaves behind**. -/
structure Shows (last : Step) (ref : ConstantRef) : Prop where
  opcode_eq : ref.opcode = if 255 < ref.index.toNat ∨ last.isRead = true then .ldcW else .ldc
  length_eq : ref.length = if 255 < ref.index.toNat ∨ last.isRead = true then 3 else 2
  written : ∃ operand,
    (∀ held, (ref.write Sink.buffer).runAt held =
      (.ok (), held ++ (ref.opcode.toByte :: operand).toArray)) ∧
    operand.length + 1 = ref.length ∧ Word.spelled operand = ref.index.toNat
  keepsLong_iff : ref.keepsLong = true ↔ last.ReadsSmall
  shortest_iff : ref = ofIndex ref.index ↔ ¬last.ReadsSmall

theorem Step.LeadsTo.shows {step : Step} {ref : ConstantRef} (h : step.LeadsTo ref) :
    Shows step ref where
  opcode_eq := by
    rw [opcode_eq]
    simp only [h.isWide_iff]
  length_eq := by
    rw [length_eq]
    simp only [h.isWide_iff]
  written := by
    obtain ⟨operand, hbytes, hspelled⟩ := ref.exists_bytes_eq
    refine ⟨operand, fun held => ?_, ?_, hspelled⟩
    · rw [runAt_write_buffer, hbytes]
    · rw [← length_bytes, hbytes, List.length_cons]
  keepsLong_iff := h.keepsLong_iff
  shortest_iff := by
    rw [eq_ofIndex_iff, ← h.keepsLong_iff, Bool.not_eq_true]

/-- A small index read in the long form, a read that fails, and the same index set anew: the long
form is kept up to the last of these steps. -/
example :
    let read := Step.readLong ⟨1, [0x00, 0x09]⟩
    let failing := Step.readLong ⟨1, [0x00]⟩
    afterAll 300 [read, failing] = long 9 ∧
      afterAll 300 [read, failing, .setIndex 9] = short 9 := by
  decide

end ConstantRef

end Bytecode
