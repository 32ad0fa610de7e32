import Bytecode.ConstantPool
import Bytecode.Proofs.Constant.Agreement

/-!
# Pushing and interning

A pool is known by its size and by the constant at each index. In these terms a push adds one
constant at the index that is the size, and interning looks for the first constant that agrees
with the one wanted before it pushes. Either may be refused: the pool is full, and may be fuller
than before.

## Main results

* `ConstantPool.constantAt_append`: what stands where after a constant is appended
* `ConstantPool.find?_eq_some_iff`, `ConstantPool.find?_eq_none_iff`: the search
* `ConstantPool.runOn_push_eq_ok_iff`, `ConstantPool.runOn_push_eq_error_iff`: the ends of a push
* `ConstantPool.kept_of_intern`: what stands at the index that interning gives
-/

namespace Bytecode.ConstantPool

variable {pool pool' : ConstantPool} {constant : Constant} {index : UInt16}

/-! ## What stands where -/

section Lookup

theorem constantAt_eq_some_iff :
    pool.constantAt index = some constant ↔ pool.slots[index.toNat]? = some (some constant) :=
  Option.join_eq_some_iff

theorem toNat_lt_size (h : pool.constantAt index = some constant) : index.toNat < pool.size := by
  rw [constantAt_eq_some_iff] at h
  exact (Array.getElem?_eq_some_iff.mp h).1

theorem constantAt_of_size_le (h : pool.size ≤ index.toNat) : pool.constantAt index = none := by
  rw [constantAt, Array.getElem?_eq_none h]
  rfl

theorem constantAt_new (index : UInt16) : new.constantAt index = none := by
  rw [Option.eq_none_iff_forall_ne_some]
  intro constant h
  have hindex : index = 0 := UInt16.toNat_inj.mp (Nat.lt_one_iff.mp (toNat_lt_size h))
  rw [hindex] at h
  cases h

theorem toNat_ofNat_of_le_maxIndex {position : Nat} (h : position ≤ maxIndex) :
    (UInt16.ofNat position).toNat = position :=
  UInt16.toNat_ofNat_of_lt' (Nat.lt_succ_of_le h)

/-- **After an append** the constant stands at the end, and everything else where it stood. -/
theorem constantAt_append (pool : ConstantPool) (constant : Constant) (index : UInt16) :
    (pool.append constant).constantAt index =
      if index.toNat = pool.size then some constant else pool.constantAt index := by
  have hpush : (pool.slots.push (some constant))[index.toNat]?.join =
      if index.toNat = pool.size then some constant else pool.constantAt index := by
    rw [Array.getElem?_push, size, constantAt, apply_ite Option.join]
    rfl
  unfold append
  rw [constantAt]
  split
  · -- the empty index behind a two-slot constant was out of reach before
    rw [Array.getElem?_push]
    split
    · next hlast =>
      rw [Array.size_push] at hlast
      rw [if_neg (by rw [size]; omega), constantAt_of_size_le (by rw [size]; omega)]
      rfl
    · exact hpush
  · exact hpush

theorem constantAt_append_size (h : pool.size ≤ maxIndex) (constant : Constant) :
    (pool.append constant).constantAt (UInt16.ofNat pool.size) = some constant := by
  rw [constantAt_append, if_pos (toNat_ofNat_of_le_maxIndex h)]

theorem constantAt_append_of_some (h : pool.constantAt index = some constant)
    (appended : Constant) : (pool.append appended).constantAt index = some constant := by
  rw [constantAt_append, if_neg (Nat.ne_of_lt (toNat_lt_size h)), h]

end Lookup

/-! ## Searching -/

section Search

variable {wanted : Constant}

/-- The position of the first agreeing constant, which need not be an index. -/
theorem findIdx?_eq_some_iff {position : Nat} :
    (pool.slots.findIdx? fun entry => entry.any (·.agrees wanted)) = some position ↔
      (∃ found, pool.slots[position]? = some (some found) ∧ found.agrees wanted = true) ∧
        ∀ earlier < position, ∀ constant, pool.slots[earlier]? = some (some constant) →
          constant.agrees wanted = false := by
  rw [Array.findIdx?_eq_some_iff_getElem]
  simp only [Option.any_eq_true]
  constructor
  · rintro ⟨hposition, ⟨found, hslot, hagrees⟩, hearlier⟩
    refine ⟨⟨found, Array.getElem?_eq_some_iff.mpr ⟨hposition, hslot⟩, hagrees⟩, ?_⟩
    intro earlier hlt constant hconstant
    obtain ⟨hbound, hconstant⟩ := Array.getElem?_eq_some_iff.mp hconstant
    exact Bool.eq_false_iff.mpr fun h => hearlier earlier hlt ⟨constant, hconstant, h⟩
  · rintro ⟨⟨found, hslot, hagrees⟩, hearlier⟩
    obtain ⟨hposition, hslot⟩ := Array.getElem?_eq_some_iff.mp hslot
    refine ⟨hposition, ⟨found, hslot, hagrees⟩, ?_⟩
    rintro earlier hlt ⟨constant, hconstant, h⟩
    have hbound : earlier < pool.slots.size := Nat.lt_trans hlt hposition
    have hdiffers := hearlier earlier hlt constant
      (Array.getElem?_eq_some_iff.mpr ⟨hbound, hconstant⟩)
    exact absurd h (Bool.eq_false_iff.mp hdiffers)

/-- **The search finds** an index where an agreeing constant stands, with none before it. -/
theorem find?_eq_some_iff :
    pool.find? wanted = some index ↔
      (∃ found, pool.constantAt index = some found ∧ found.agrees wanted = true) ∧
        ∀ earlier < index, ∀ constant, pool.constantAt earlier = some constant →
          constant.agrees wanted = false := by
  have hposition : pool.find? wanted = some index ↔
      (pool.slots.findIdx? fun entry => entry.any (·.agrees wanted)) = some index.toNat := by
    unfold find?
    split
    · next position h =>
      rw [h]
      split
      · next hle =>
        rw [Option.some.injEq, Option.some.injEq, ← UInt16.toNat_inj,
          toNat_ofNat_of_le_maxIndex hle]
      · next hle =>
        have := index.toNat_lt
        simp only [maxIndex] at hle
        simp
        omega
    · next h => simp [h]
  simp only [hposition, findIdx?_eq_some_iff, constantAt_eq_some_iff]
  refine and_congr_right fun _ => ⟨fun h earlier hlt => h earlier.toNat hlt, ?_⟩
  intro h earlier hlt constant hconstant
  have hle : earlier ≤ maxIndex := Nat.le_of_lt_succ (Nat.lt_trans hlt index.toNat_lt)
  refine h (UInt16.ofNat earlier) ?_ constant ?_
  · rwa [UInt16.lt_iff_toNat_lt, toNat_ofNat_of_le_maxIndex hle]
  · rwa [toNat_ofNat_of_le_maxIndex hle]

/-- **The search finds nothing** if no constant at an index agrees. -/
theorem find?_eq_none_iff :
    pool.find? wanted = none ↔
      ∀ index constant, pool.constantAt index = some constant →
        constant.agrees wanted = false := by
  constructor
  · intro h index constant hconstant
    rw [constantAt_eq_some_iff] at hconstant
    unfold find? at h
    split at h
    · next position hposition =>
      split at h
      · cases h
      · -- the first agreeing constant lies behind the last index
        next hbeyond =>
        have hlt : index.toNat < position :=
          Nat.lt_of_lt_of_le index.toNat_lt (Nat.lt_of_not_le hbeyond)
        exact (findIdx?_eq_some_iff.mp hposition).2 _ hlt constant hconstant
    · next hnone =>
      exact Array.findIdx?_eq_none_iff.mp hnone _ (Array.mem_of_getElem? hconstant)
  · intro h
    rw [Option.eq_none_iff_forall_ne_some]
    intro index hindex
    obtain ⟨⟨found, hfound, hagrees⟩, -⟩ := find?_eq_some_iff.mp hindex
    rw [h index found hfound] at hagrees
    cases hagrees

/-- **A constant that is appended is found** at its new index, if none agreed with it before. -/
theorem find?_append_self (hnumber : wanted.isNaN = false) (hindex : pool.size ≤ maxIndex)
    (hnone : pool.find? wanted = none) :
    (pool.append wanted).find? wanted = some (UInt16.ofNat pool.size) := by
  refine find?_eq_some_iff.mpr ⟨⟨wanted, constantAt_append_size hindex wanted,
    (Constant.agrees_self_iff wanted).mpr hnumber⟩, ?_⟩
  intro earlier hlt found hfound
  rw [UInt16.lt_iff_toNat_lt, toNat_ofNat_of_le_maxIndex hindex] at hlt
  rw [constantAt_append, if_neg (Nat.ne_of_lt hlt)] at hfound
  exact find?_eq_none_iff.mp hnone earlier found hfound

end Search

/-! ## The ends of a push and of interning -/

section Ends

variable {e : PoolError}

/-- **A push succeeds** if there is room for the constant, and gives the size as its index. -/
theorem runOn_push_eq_ok_iff :
    (push constant).runOn pool = (.ok index, pool') ↔
      pool.size + constant.slots ≤ maxIndex ∧ index = UInt16.ofNat pool.size ∧
        pool' = pool.append constant := by
  rw [runOn_push]
  by_cases hroom : pool.size + constant.slots ≤ maxIndex
  · have hindex : pool.size ≤ maxIndex := Nat.le_of_add_right_le hroom
    simp [hroom, hindex, eq_comm]
  · split <;> simp [hroom]

/-- **A push is refused** if there is no room. The constant stays at the end, unless the size was
no index. -/
theorem runOn_push_eq_error_iff :
    (push constant).runOn pool = (.error e, pool') ↔
      maxIndex < pool.size + constant.slots ∧
        pool' = if pool.size ≤ maxIndex then pool.append constant else pool := by
  cases e
  rw [runOn_push, ← Nat.not_le]
  by_cases hroom : pool.size + constant.slots ≤ maxIndex
  · have hindex : pool.size ≤ maxIndex := Nat.le_of_add_right_le hroom
    simp [hroom, hindex]
  · split <;> simp [hroom, eq_comm]

theorem runOn_intern_eq_ok_iff :
    (intern constant).runOn pool = (.ok index, pool') ↔
      (pool.find? constant = some index ∧ pool' = pool) ∨
        (pool.find? constant = none ∧ (push constant).runOn pool = (.ok index, pool')) := by
  rw [runOn_intern]
  cases pool.find? constant <;> simp [eq_comm]

theorem runOn_intern_eq_error_iff :
    (intern constant).runOn pool = (.error e, pool') ↔
      pool.find? constant = none ∧ (push constant).runOn pool = (.error e, pool') := by
  rw [runOn_intern]
  cases pool.find? constant <;> simp

theorem constantAt_of_push (h : (push constant).runOn pool = (.ok index, pool')) :
    pool'.constantAt index = some constant := by
  obtain ⟨hroom, rfl, rfl⟩ := runOn_push_eq_ok_iff.mp h
  exact constantAt_append_size (Nat.le_of_add_right_le hroom) constant

end Ends

/-! ## What interning keeps -/

section Kept

/-- **The other zero comes first**: the constant is a zero, the zero of the other sign stands in
the pool, and the constant itself does not stand before it. -/
def OtherZeroFirst (pool : ConstantPool) (constant : Constant) : Prop :=
  ∃ other index, constant.oppositeZero? = some other ∧ pool.constantAt index = some other ∧
    ∀ earlier < index, pool.constantAt earlier ≠ some constant

/-- **What interning keeps**: the zero of the other sign if it comes first, and otherwise the
constant itself. -/
theorem kept_of_intern (h : (intern constant).runOn pool = (.ok index, pool')) :
    ∃ kept, pool'.constantAt index = some kept ∧
      (kept = constant ∧ ¬pool.OtherZeroFirst constant ∨
        constant.oppositeZero? = some kept ∧ pool.OtherZeroFirst constant) := by
  rcases runOn_intern_eq_ok_iff.mp h with ⟨hfind, rfl⟩ | ⟨hnone, hpush⟩
  · obtain ⟨⟨kept, hkept, hagrees⟩, hearlier⟩ := find?_eq_some_iff.mp hfind
    refine ⟨kept, hkept, ?_⟩
    rcases (Constant.agrees_iff kept constant).mp hagrees with ⟨rfl, -⟩ | hzero
    · refine .inl ⟨rfl, ?_⟩
      rintro ⟨other, position, hother, hposition, hbefore⟩
      -- the other zero agrees, so it stands behind the first constant that does
      have hle : index ≤ position := UInt16.not_lt.mp fun hlt => by
        have hdiffers := hearlier position hlt other hposition
        rw [Constant.agrees_of_oppositeZero? hother] at hdiffers
        cases hdiffers
      have hne : index ≠ position := by
        rintro rfl
        rw [hkept, Option.some.injEq] at hposition
        exact Constant.ne_of_oppositeZero? hother hposition.symm
      exact hbefore index (UInt16.lt_of_le_of_ne hle hne) hkept
    · refine .inr ⟨hzero, kept, index, hzero, hkept, ?_⟩
      intro earlier hlt hsame
      have hdiffers := hearlier earlier hlt constant hsame
      rw [Constant.agrees_self_of_oppositeZero? hzero] at hdiffers
      cases hdiffers
  · refine ⟨constant, constantAt_of_push hpush, .inl ⟨rfl, ?_⟩⟩
    rintro ⟨other, position, hother, hposition, -⟩
    have hdiffers := find?_eq_none_iff.mp hnone position other hposition
    rw [Constant.agrees_of_oppositeZero? hother] at hdiffers
    cases hdiffers

/-- Interning what is no zero gives an index of this very constant. -/
theorem constantAt_of_intern_of_ne_zero (hzero : constant.oppositeZero? = none)
    (h : (intern constant).runOn pool = (.ok index, pool')) :
    pool'.constantAt index = some constant := by
  obtain ⟨kept, hkept, ⟨rfl, -⟩ | ⟨hopposite, -⟩⟩ := kept_of_intern h
  · exact hkept
  · rw [hzero] at hopposite
    cases hopposite

end Kept

end Bytecode.ConstantPool
