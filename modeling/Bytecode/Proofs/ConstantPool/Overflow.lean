import Bytecode.Proofs.ConstantPool.Growth

/-!
# What a refusal leaves

A pool is refused a constant that does not fit, but the constant is appended before its size is
checked. So a refusal leaves a pool that is over the limit, by two at most. Such a pool is full:
nothing changes it any more, and every push is refused. Only what stands in it already can be
interned, and that goes for the constant that was refused.

## Main definitions

* `ConstantPool.afterAll`: the pool after additions that go on after refusals
* `ConstantPool.almostFull`: a pool with room for one more index

## Main results

* `Addition.runOn_of_full`, `ConstantPool.afterAll_of_full`: a full pool stays as it is
* `Addition.full_of_error`: a refusal leaves a full pool
* `ConstantPool.runOn_intern_again`: a refused constant is found when it is interned again
* `ConstantPool.refused_of_afterAll`: what a refusal leaves of a pool that can be reached
-/

namespace Bytecode

open ConstantPool

/-! ## Full pools -/

namespace ConstantPool

variable {pool : ConstantPool}

/-- **The pool after all additions**. A refusal does not end the run, which goes on with the pool
that the refusal left. -/
def afterAll (pool : ConstantPool) (additions : List Addition) : ConstantPool :=
  additions.foldl (fun pool addition => (addition.build.runOn pool).2) pool

theorem afterAll_cons (pool : ConstantPool) (addition : Addition) (rest : List Addition) :
    pool.afterAll (addition :: rest) = afterAll (addition.build.runOn pool).2 rest := rfl

/-- A full pool refuses every push. -/
theorem runOn_push_of_full (hfull : maxIndex < pool.size) (constant : Constant) :
    (push constant).runOn pool = (.error .overflow, pool) := by
  rw [runOn_push, if_neg (Nat.not_le.mpr hfull)]

end ConstantPool

namespace Addition

variable {addition : Addition} {pool pool' : ConstantPool} {e : PoolError}

/-- **A full pool stays** as it is, whether an addition succeeds or not. -/
theorem runOn_of_full (hfull : maxIndex < pool.size) (addition : Addition) :
    (addition.build.runOn pool).2 = pool := by
  rcases h : addition.build.runOn pool with ⟨e | index, pool'⟩
  · obtain ⟨middle, constant, hgrows, hpush⟩ := refused_push_of_error h
    obtain rfl := hgrows.eq_of_full hfull
    rw [runOn_push_of_full hfull] at hpush
    cases hpush
    rfl
  · exact (growsTo_of_ok h).eq_of_full hfull

/-! ## Refusals -/

/-- **A refusal leaves a full pool**. -/
theorem full_of_error (h : addition.build.runOn pool = (.error e, pool')) :
    maxIndex < pool'.size := by
  obtain ⟨middle, constant, -, hpush⟩ := refused_push_of_error h
  obtain ⟨hroom, rfl⟩ := runOn_push_eq_error_iff.mp hpush
  split
  · rwa [size_append]
  · next hfull => exact Nat.lt_of_not_le hfull

/-- Entries stay where they are, also when an addition is refused. -/
theorem constantAt_of_error (h : addition.build.runOn pool = (.error e, pool'))
    {index : UInt16} {constant : Constant} (hconstant : pool.constantAt index = some constant) :
    pool'.constantAt index = some constant := by
  obtain ⟨middle, refused, hgrows, hpush⟩ := refused_push_of_error h
  obtain ⟨-, rfl⟩ := runOn_push_eq_error_iff.mp hpush
  have hmiddle := hgrows.constantAt_eq_some hconstant
  split
  · exact constantAt_append_of_some hmiddle refused
  · exact hmiddle

/-- **An addition** leaves a pool that is over the limit by two at most, if the pool was so. -/
theorem size_runOn_le (hsize : pool.size ≤ maxIndex + 2) (addition : Addition) :
    (addition.build.runOn pool).2.size ≤ maxIndex + 2 := by
  by_cases hfull : maxIndex < pool.size
  · rwa [runOn_of_full hfull]
  · have hroom : pool.size ≤ maxIndex := Nat.le_of_not_lt hfull
    rcases h : addition.build.runOn pool with ⟨e | index, pool'⟩
    · obtain ⟨middle, constant, hgrows, hpush⟩ := refused_push_of_error h
      obtain ⟨-, rfl⟩ := runOn_push_eq_error_iff.mp hpush
      -- only the constant that is refused goes over the limit
      have hmiddle := hgrows.size_le_maxIndex hroom
      rw [if_pos hmiddle, size_append]
      exact Nat.add_le_add hmiddle constant.slots_le_two
    · exact Nat.le_add_right_of_le ((growsTo_of_ok h).size_le_maxIndex hroom)

end Addition

namespace ConstantPool

variable {pool pool' : ConstantPool} {constant : Constant} {e : PoolError}

/-- **A refused constant is found** when it is interned again, unless it stands for no number. -/
theorem runOn_intern_again (hnumber : constant.isNaN = false) (hroom : pool.size ≤ maxIndex)
    (h : (intern constant).runOn pool = (.error e, pool')) :
    (intern constant).runOn pool' = (.ok (UInt16.ofNat pool.size), pool') := by
  obtain ⟨hnone, hpush⟩ := runOn_intern_eq_error_iff.mp h
  obtain ⟨-, rfl⟩ := runOn_push_eq_error_iff.mp hpush
  rw [if_pos hroom]
  exact runOn_intern_eq_ok_iff.mpr (.inl ⟨find?_append_self hnumber hroom hnone, rfl⟩)

/-! ## Runs that go on after refusals -/

theorem afterAll_of_full (hfull : maxIndex < pool.size) (additions : List Addition) :
    pool.afterAll additions = pool := by
  induction additions with
  | nil => rfl
  | cons addition rest ih => rw [afterAll_cons, addition.runOn_of_full hfull, ih]

theorem size_afterAll_le (hsize : pool.size ≤ maxIndex + 2) (additions : List Addition) :
    (pool.afterAll additions).size ≤ maxIndex + 2 := by
  induction additions generalizing pool with
  | nil => exact hsize
  | cons addition rest ih => exact ih (addition.size_runOn_le hsize)

/-! ## A pool with room for one more index -/

/-- Pushing a constant again and again, while there is room, fills a pool with it. -/
theorem afterAll_replicate {count : Nat} (hroom : pool.size + count * constant.slots ≤ maxIndex) :
    (pool.afterAll (List.replicate count (.push constant))).size =
        pool.size + count * constant.slots ∧
      ∀ index found, (pool.afterAll (List.replicate count (.push constant))).constantAt index =
        some found → pool.constantAt index = some found ∨ found = constant := by
  -- by induction on the number of pushes, on whatever pool the first of them leaves
  induction count generalizing pool with
  | zero =>
    rw [Nat.zero_mul]
    exact ⟨rfl, fun _ _ => .inl⟩
  | succ count ih =>
    rw [Nat.succ_mul] at hroom ⊢
    have hpush : (Addition.push constant).build.runOn pool =
        (.ok (UInt16.ofNat pool.size), pool.append constant) :=
      runOn_push_eq_ok_iff.mpr ⟨by omega, rfl, rfl⟩
    rw [List.replicate_succ, afterAll_cons, hpush]
    have hrest : (pool.append constant).size + count * constant.slots ≤ maxIndex := by
      rw [size_append]
      omega
    obtain ⟨hsize, hfound⟩ := ih hrest
    rw [size_append] at hsize
    refine ⟨hsize.trans (by omega), fun index found h => ?_⟩
    rcases hfound index found h with happend | rfl
    · rw [constantAt_append] at happend
      split at happend
      · exact .inr (Option.some.inj happend).symm
      · exact .inl happend
    · exact .inr rfl

/-- A pool with room for one more index: every other one holds an integer. -/
def almostFull : ConstantPool := new.afterAll (List.replicate 65534 (.push (.integer 0)))

theorem size_almostFull : almostFull.size = 65535 :=
  (afterAll_replicate (by decide)).1

theorem refused_almostFull (text : String) :
    (Addition.utf8 text).build.runOn almostFull =
      (.error .overflow, almostFull.append (.utf8 text)) := by
  refine runOn_intern_eq_error_iff.mpr ⟨find?_eq_none_iff.mpr fun index found h => ?_,
    runOn_push_eq_error_iff.mpr ⟨?_, ?_⟩⟩
  · rcases (afterAll_replicate (by decide)).2 index found h with hnew | rfl
    · rw [constantAt_new] at hnew
      cases hnew
    · rfl
  · rw [size_almostFull]
    exact Nat.lt_succ_self 65535
  · have hindex : almostFull.size ≤ maxIndex := Nat.le_of_eq size_almostFull
    rw [if_pos hindex]

/-! ## What a refusal leaves -/

/-- **What a refusal leaves** of a pool that can be reached, after refusals or without. The pool is
changed, unless it was over the limit already, and it is over the limit now. The entries stay, and
nothing changes any more; every push is refused, but a refused constant is found when it is
interned again, unless it stands for no number. -/
theorem refused_of_afterAll {additions : List Addition} (hpool : new.afterAll additions = pool) :
    pool.size ≤ 65537 ∧
      ∀ (addition : Addition) e pool', addition.build.runOn pool = (.error e, pool') →
        (pool' = pool ↔ 65535 < pool.size) ∧
        65535 < pool'.size ∧ pool'.size ≤ 65537 ∧
        (∀ index constant, pool.constantAt index = some constant →
          pool'.constantAt index = some constant) ∧
        (∀ later, pool'.afterAll later = pool') ∧
        (∀ constant, (push constant).runOn pool' = (.error .overflow, pool')) ∧
        ∀ constant, addition.build = intern constant → constant.isNaN = false →
          pool.size ≤ 65535 →
            addition.build.runOn pool' = (.ok (UInt16.ofNat pool.size), pool') := by
  have hsize : pool.size ≤ maxIndex + 2 := by
    rw [← hpool]
    exact size_afterAll_le (by decide) additions
  refine ⟨hsize, fun addition e pool' h => ?_⟩
  have hfull : maxIndex < pool'.size := Addition.full_of_error h
  refine ⟨⟨?_, ?_⟩, hfull, ?_, fun _ _ => Addition.constantAt_of_error h, afterAll_of_full hfull,
    runOn_push_of_full hfull, ?_⟩
  · rintro rfl
    exact hfull
  · intro hbefore
    have hstays := addition.runOn_of_full hbefore
    rwa [h] at hstays
  · have hstep := addition.size_runOn_le hsize
    rwa [h] at hstep
  · intro constant hbuild hnumber hroom
    rw [hbuild] at h ⊢
    exact runOn_intern_again hnumber hroom h

/-- A text is refused, and then it is found. -/
theorem refused_of_afterAll_text :
    (Addition.utf8 "x").build.runOn almostFull =
        (.error .overflow, almostFull.append (.utf8 "x")) ∧
      almostFull.append (.utf8 "x") ≠ almostFull ∧
      (Addition.utf8 "x").build.runOn (almostFull.append (.utf8 "x")) =
        (.ok 65535, almostFull.append (.utf8 "x")) := by
  have hpool : new.afterAll (List.replicate 65534 (.push (.integer 0))) = almostFull := rfl
  obtain ⟨hchanged, -, -, -, -, -, hagain⟩ :=
    (refused_of_afterAll hpool).2 _ _ _ (refused_almostFull "x")
  refine ⟨refused_almostFull "x", fun h => ?_, ?_⟩
  · have hover := hchanged.mp h
    rw [size_almostFull] at hover
    exact absurd hover (by decide)
  · have hfound := hagain (.utf8 "x") rfl rfl (Nat.le_of_eq size_almostFull)
    rwa [size_almostFull] at hfound

/-- **A refusal may change the pool**: a text that is refused stays in it. -/
theorem not_unchanged_by_refusal :
    ¬∀ additions (addition : Addition) e pool',
      addition.build.runOn (new.afterAll additions) = (.error e, pool') →
        pool' = new.afterAll additions := by
  intro hall
  have hsame : almostFull.append (.utf8 "x") = almostFull :=
    hall (List.replicate 65534 (.push (.integer 0))) _ _ _ (refused_almostFull "x")
  have hsize := congrArg size hsame
  rw [size_append] at hsize
  exact absurd hsize (Nat.ne_of_gt (Nat.lt_add_of_pos_right (Constant.slots_pos _)))

end ConstantPool

end Bytecode
