import Bytecode.Proofs.ConstantPool.Growth
import Mathlib.Control.Monad.Basic
import Mathlib.Algebra.GroupWithZero.Nat

/-!
# The layout of a pool

In a pool that was built without a refusal every index below the size holds a constant, except for
index 0 and for the index behind each long and each double. The size is the sum of what the
constants take up, one index more than they do, and stays within the limit.

## Main definitions

* `ConstantPool.InOrder`: a pool laid out in this way

## Main results

* `ConstantPool.mem_entries_iff`, `ConstantPool.pairwise_entries`: the entries of any pool
* `ConstantPool.InOrder.append`: appending a constant that fits keeps the order
* `ConstantPool.inOrder_of_leadsTo`: every run of additions keeps the order
-/

namespace Bytecode

namespace Constant

theorem slots_eq_two_iff {constant : Constant} : constant.slots = 2 ↔ constant.takesTwoSlots := by
  unfold slots
  split <;> simp [*]

/-- The constants of two indices are the longs and the doubles. -/
theorem exists_slots_eq_two_iff {entry : Option Constant} :
    (∃ constant, entry = some constant ∧ constant.slots = 2) ↔
      (∃ value, entry = some (.long value)) ∨ ∃ bits, entry = some (.double bits) := by
  constructor
  · rintro ⟨constant, rfl, hslots⟩
    rw [slots_eq_two_iff] at hslots
    cases constant with
    | long value => exact .inl ⟨value, rfl⟩
    | double bits => exact .inr ⟨bits, rfl⟩
    | _ => cases hslots
  · rintro (⟨value, rfl⟩ | ⟨bits, rfl⟩)
    · exact ⟨_, rfl, rfl⟩
    · exact ⟨_, rfl, rfl⟩

end Constant

namespace ConstantPool

variable {pool pool' : ConstantPool} {constant : Constant} {index : UInt16}

/-! ## The entries of a pool -/

section Entries

/-- **The entries** are the constants with their indices. -/
theorem mem_entries_iff :
    (index, constant) ∈ pool.entries ↔ pool.constantAt index = some constant := by
  have hindex := index.toNat_lt
  simp only [entries, List.mem_filterMap, Prod.exists, List.mem_zipIdx_iff_getElem?,
    Option.map_eq_some_iff, Prod.mk.injEq, constantAt_eq_some_iff]
  constructor
  · rintro ⟨entry, position, hslot, constant, rfl, rfl, rfl⟩
    rw [List.getElem?_take] at hslot
    split at hslot
    · next h =>
      rw [Array.getElem?_toList] at hslot
      rwa [toNat_ofNat_of_le_maxIndex (Nat.le_of_lt_succ h)]
    · cases hslot
  · intro hslot
    refine ⟨some constant, index.toNat, ?_, constant, rfl, UInt16.ofNat_toNat, rfl⟩
    rw [List.getElem?_take, if_pos (by simp only [maxIndex]; omega), Array.getElem?_toList]
    exact hslot

/-- **The entries ascend** by their indices. -/
theorem pairwise_entries (pool : ConstantPool) :
    pool.entries.Pairwise fun entry other => entry.1 < other.1 := by
  have hpositions : (pool.slots.toList.take (maxIndex + 1)).zipIdx.Pairwise
      fun entry other => entry.2 < other.2 := by
    rw [← List.pairwise_map (f := Prod.snd) (R := (· < ·)), List.zipIdx_map_snd]
    exact List.pairwise_lt_range' 1
  have hbound : ∀ entry ∈ (pool.slots.toList.take (maxIndex + 1)).zipIdx,
      entry.2 < UInt16.size := by
    intro entry hmem
    have hlt := List.snd_lt_of_mem_zipIdx hmem
    have hle := List.length_take_le (maxIndex + 1) pool.slots.toList
    exact Nat.lt_of_lt_of_le hlt hle
  rw [entries, List.pairwise_filterMap]
  refine hpositions.imp_of_mem ?_
  intro entry other hmem hmem' hlt first hfirst second hsecond
  obtain ⟨_, -, rfl⟩ := Option.map_eq_some_iff.mp hfirst
  obtain ⟨_, -, rfl⟩ := Option.map_eq_some_iff.mp hsecond
  exact (UInt16.ofNat_lt_iff_lt (hbound entry hmem) (hbound other hmem')).mpr hlt

/-- The entries are the only ascending list of the constants with their indices. -/
theorem entries_eq {list : List (UInt16 × Constant)}
    (hascending : list.Pairwise fun entry other => entry.1 < other.1)
    (hmem : ∀ index constant, (index, constant) ∈ list ↔ pool.constantAt index = some constant) :
    pool.entries = list := by
  have hnodup : ∀ {list : List (UInt16 × Constant)},
      (list.Pairwise fun entry other => entry.1 < other.1) → list.Nodup := fun h =>
    h.imp fun hlt => by rintro rfl; exact UInt16.lt_irrefl _ hlt
  refine List.Perm.eq_of_pairwise ?_ (pairwise_entries pool) hascending ?_
  · intro entry other _ _ hlt hgt
    exact absurd (UInt16.lt_trans hlt hgt) (UInt16.lt_irrefl _)
  · refine (List.perm_ext_iff_of_nodup (hnodup (pairwise_entries pool)) (hnodup hascending)).mpr ?_
    rintro ⟨index, constant⟩
    rw [mem_entries_iff, hmem]

theorem entries_append (h : pool.size ≤ maxIndex) (constant : Constant) :
    (pool.append constant).entries = pool.entries ++ [(UInt16.ofNat pool.size, constant)] := by
  apply entries_eq
  · refine List.pairwise_append.mpr ⟨pairwise_entries pool, List.pairwise_singleton _ _, ?_⟩
    rintro ⟨index, earlier⟩ hmem _ (_ | ⟨_, ⟨⟩⟩)
    rw [UInt16.lt_iff_toNat_lt, toNat_ofNat_of_le_maxIndex h]
    exact toNat_lt_size (mem_entries_iff.mp hmem)
  · intro index found
    rw [constantAt_append, List.mem_append, mem_entries_iff, List.mem_singleton, Prod.mk.injEq,
      ← UInt16.toNat_inj, toNat_ofNat_of_le_maxIndex h]
    split
    · next hlast =>
      have hempty := constantAt_of_size_le (Nat.le_of_eq hlast.symm)
      simp [hlast, hempty, eq_comm]
    · next hother => simp [hother]

end Entries

/-! ## Pools in order -/

/-- **A pool in order**: which indices are empty, what the size is, and what the entries are. -/
structure InOrder (pool : ConstantPool) : Prop where
  zero_empty : pool.constantAt 0 = none
  -- below the size, an index is empty exactly behind a long or a double
  empty_iff : ∀ index, 0 < index → index.toNat < pool.size →
    (pool.constantAt index = none ↔
      (∃ value, pool.constantAt (index - 1) = some (.long value)) ∨
        ∃ bits, pool.constantAt (index - 1) = some (.double bits))
  empty_of_size_le : ∀ index, pool.size ≤ index.toNat → pool.constantAt index = none
  -- no constant is cut off at the end
  contained : ∀ index constant, pool.constantAt index = some constant →
    index.toNat + constant.slots ≤ pool.size
  size_eq : pool.size = 1 + (pool.entries.map fun entry => entry.2.slots).sum
  size_le : pool.size ≤ 65535
  mem_entries : ∀ index constant,
    (index, constant) ∈ pool.entries ↔ pool.constantAt index = some constant
  ascending : pool.entries.Pairwise fun entry other => entry.1 < other.1

theorem inOrder_new : new.InOrder where
  zero_empty := rfl
  empty_iff index hpos hlt := by
    rw [UInt16.lt_iff_toNat_lt] at hpos
    exact absurd hpos (Nat.not_lt.mpr (Nat.le_of_lt_succ hlt))
  empty_of_size_le _ := constantAt_of_size_le
  contained index constant h := by
    rw [constantAt_new] at h
    cases h
  size_eq := rfl
  size_le := by decide
  mem_entries _ _ := mem_entries_iff
  ascending := pairwise_entries new

theorem InOrder.size_pos (h : pool.InOrder) : 0 < pool.size := by
  rw [h.size_eq]
  exact Nat.add_pos_left Nat.one_pos _

theorem toNat_sub_one (h : 0 < index) : (index - 1).toNat = index.toNat - 1 :=
  UInt16.toNat_sub_of_le index 1 (UInt16.le_iff_toNat_le.mpr (UInt16.lt_iff_toNat_lt.mp h))

/-- **Appending a constant that fits keeps the order**. -/
theorem InOrder.append (h : pool.InOrder) (hroom : pool.size + constant.slots ≤ maxIndex) :
    (pool.append constant).InOrder where
  zero_empty := by
    have hzero : (0 : UInt16).toNat ≠ pool.size := Nat.ne_of_lt h.size_pos
    rw [constantAt_append, if_neg hzero, h.zero_empty]
  empty_iff index hpos hlt := by
    have htoNat := toNat_sub_one hpos
    have hindex : 0 < index.toNat := UInt16.lt_iff_toNat_lt.mp hpos
    rw [size_append] at hlt
    rw [← Constant.exists_slots_eq_two_iff, constantAt_append, constantAt_append]
    rcases Nat.lt_trichotomy index.toNat pool.size with hbefore | hlast | hbehind
    · rw [if_neg (by omega), if_neg (by omega), Constant.exists_slots_eq_two_iff]
      exact h.empty_iff index hpos hbefore
    · -- a constant of two indices at the end of the pool would be cut off
      rw [if_pos hlast, if_neg (by omega)]
      refine iff_of_false (Option.some_ne_none _) ?_
      rintro ⟨earlier, hearlier, hslots⟩
      have := h.contained _ _ hearlier
      omega
    · -- only a constant of two indices reaches beyond the index it stands at
      have hslots := constant.slots_le_two
      rw [if_neg (by omega), if_pos (by omega), constantAt_of_size_le (by omega)]
      exact iff_of_true rfl ⟨constant, rfl, by omega⟩
  empty_of_size_le _ := constantAt_of_size_le
  contained index found hfound := by
    rw [size_append]
    rw [constantAt_append] at hfound
    split at hfound
    · next hlast =>
      cases hfound
      omega
    · exact Nat.le_add_right_of_le (h.contained index found hfound)
  size_eq := by
    have hindex : pool.size ≤ maxIndex := Nat.le_of_add_right_le hroom
    have hsize := h.size_eq
    rw [size_append, entries_append hindex, List.map_append, List.sum_append]
    simp
    omega
  size_le := by
    rw [size_append]
    exact hroom
  mem_entries _ _ := mem_entries_iff
  ascending := pairwise_entries _

theorem GrowsTo.inOrder (h : new.GrowsTo pool) : pool.InOrder := by
  induction h with
  | refl => exact inOrder_new
  | append _ constant hroom ih => exact ih.append hroom

theorem InOrder.push_eq_overflow_iff (h : pool.InOrder) (constant : Constant) :
    ((push constant).runOn pool).1 = .error .overflow ↔ 65535 < pool.size + constant.slots := by
  have hindex : pool.size ≤ maxIndex := h.size_le
  rw [runOn_push, if_pos hindex, ← Nat.not_le]
  show (if pool.size + constant.slots ≤ 65535 then _ else _) = _ ↔ _
  split <;> simp [*]

/-- **Every run of additions keeps the order** of the new pool. The next addition, if it is not
refused, keeps it too and all entries with it, and gives an index in use; and the next push is
refused exactly if the size would exceed the limit. -/
theorem inOrder_of_leadsTo (h : new.LeadsTo pool) :
    pool.InOrder ∧
      (∀ (addition : Addition) index pool', addition.build.runOn pool = (.ok index, pool') →
        pool'.InOrder ∧ index ≠ 0 ∧ index.toNat < pool'.size ∧
          (∃ constant, pool'.constantAt index = some constant) ∧
          ∀ earlier constant, pool.constantAt earlier = some constant →
            pool'.constantAt earlier = some constant) ∧
      ∀ constant, ((push constant).runOn pool).1 = .error .overflow ↔
        65535 < pool.size + constant.slots := by
  refine ⟨h.growsTo.inOrder, fun addition index pool' hstep => ?_,
    h.growsTo.inOrder.push_eq_overflow_iff⟩
  have hgrows := addition.growsTo_of_ok hstep
  have horder : pool'.InOrder := (h.growsTo.trans hgrows).inOrder
  obtain ⟨constant, hconstant⟩ := addition.exists_constantAt_of_ok hstep
  refine ⟨horder, ?_, toNat_lt_size hconstant, ⟨constant, hconstant⟩, ?_⟩
  · rintro rfl
    rw [horder.zero_empty] at hconstant
    cases hconstant
  · exact fun _ _ => hgrows.constantAt_eq_some

/-- A run with constants of one and of two indices, of which the last one is found again. -/
theorem inOrder_of_leadsTo_shared :
    (buildAll [.long 5, .string "a", .double 0, .push (.long 5), .long 5]).runOn new =
        (.ok [1, 4, 5, 7, 1], ⟨#[none, some (.long 5), none, some (.utf8 "a"), some (.string 3),
          some (.double 0), none, some (.long 5), none]⟩) ∧
      (ConstantPool.mk #[none, some (.long 5), none, some (.utf8 "a"), some (.string 3),
        some (.double 0), none, some (.long 5), none]).InOrder := by
  have h : (buildAll [.long 5, .string "a", .double 0, .push (.long 5), .long 5]).runOn new =
      (.ok [1, 4, 5, 7, 1], ⟨#[none, some (.long 5), none, some (.utf8 "a"), some (.string 3),
        some (.double 0), none, some (.long 5), none]⟩) := by decide +kernel
  exact ⟨h, (inOrder_of_leadsTo ⟨_, _, h⟩).1⟩

end ConstantPool

end Bytecode
