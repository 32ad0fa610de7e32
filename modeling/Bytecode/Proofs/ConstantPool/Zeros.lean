import Bytecode.Proofs.Constant.Resolution
import Bytecode.Proofs.ConstantPool.Growth
import Mathlib.Control.Monad.Basic

/-!
# Which number is kept

Interning compares numbers with a point by value. An infinity is found again by its bits, and bits
that stand for no number are never found, so these are kept as they are. But the zeros of the two
signs are the same value: whichever stands first in the pool is kept for both, and the sign of the
other one is lost.

## Main results

* `ConstantPool.kept_of_addNumber`: which bits stand at the index of an added number
-/

namespace Bytecode.ConstantPool

variable {pool pool' : ConstantPool} {index : UInt16}

/-- **The bits of an added number stay**, unless it is a zero and the zero of the other sign comes
first: then it is this one that stands at the index, and that is loaded. -/
theorem kept_of_addNumber :
    (∀ bits, (addFloat bits).runOn pool = (.ok index, pool') →
      ∃ kept, pool'.constantAt index = some (.float kept) ∧
        (ConstantRef.ofIndex index).Loads pool'.source (.float kept) .float ∧
        (kept = bits ∧ ¬pool.OtherZeroFirst (.float bits) ∨
          (Constant.float bits).oppositeZero? = some (.float kept) ∧
            pool.OtherZeroFirst (.float bits))) ∧
    ∀ bits, (addDouble bits).runOn pool = (.ok index, pool') →
      ∃ kept, pool'.constantAt index = some (.double kept) ∧
        (kept = bits ∧ ¬pool.OtherZeroFirst (.double bits) ∨
          (Constant.double bits).oppositeZero? = some (.double kept) ∧
            pool.OtherZeroFirst (.double bits)) := by
  constructor
  · intro bits hadd
    obtain ⟨kept, hkept, hsame⟩ := kept_of_intern hadd
    obtain ⟨keptBits, rfl⟩ : ∃ keptBits, kept = .float keptBits := by
      rcases hsame with ⟨rfl, -⟩ | ⟨hzero, -⟩
      · exact ⟨bits, rfl⟩
      · exact Constant.exists_of_oppositeZero?_float hzero
    rw [Constant.float.injEq] at hsame
    refine ⟨keptBits, hkept, ConstantRef.loads_float ?_, hsame⟩
    rwa [ConstantRef.index_ofIndex]
  · intro bits hadd
    obtain ⟨kept, hkept, hsame⟩ := kept_of_intern hadd
    obtain ⟨keptBits, rfl⟩ : ∃ keptBits, kept = .double keptBits := by
      rcases hsame with ⟨rfl, -⟩ | ⟨hzero, -⟩
      · exact ⟨bits, rfl⟩
      · exact Constant.exists_of_oppositeZero?_double hzero
    rw [Constant.double.injEq] at hsame
    exact ⟨keptBits, hkept, hsame⟩

/-- A negative zero is added to a pool with a positive one, and bits that stand for no number are
added to a pool that has them. -/
theorem kept_of_addNumber_special :
    (addFloat 0x80000000).runOn ⟨#[none, some (.float 0)]⟩ =
        (.ok 1, ⟨#[none, some (.float 0)]⟩) ∧
      (ConstantRef.ofIndex 1).Loads (source ⟨#[none, some (.float 0)]⟩) (.float 0) .float ∧
      OtherZeroFirst ⟨#[none, some (.float 0)]⟩ (.float 0x80000000) ∧
      (addDouble 0x7FF8000000000001).runOn ⟨#[none, some (.double 0x7FF8000000000001), none]⟩ =
        (.ok 3, ⟨#[none, some (.double 0x7FF8000000000001), none,
          some (.double 0x7FF8000000000001), none]⟩) ∧
      constantAt ⟨#[none, some (.double 0x7FF8000000000001), none,
        some (.double 0x7FF8000000000001), none]⟩ 3 = some (.double 0x7FF8000000000001) := by
  have hfloat : (addFloat 0x80000000).runOn ⟨#[none, some (.float 0)]⟩ =
      (.ok 1, ⟨#[none, some (.float 0)]⟩) := by decide +kernel
  have hdouble : (addDouble 0x7FF8000000000001).runOn
      ⟨#[none, some (.double 0x7FF8000000000001), none]⟩ =
        (.ok 3, ⟨#[none, some (.double 0x7FF8000000000001), none,
          some (.double 0x7FF8000000000001), none]⟩) := by decide +kernel
  obtain ⟨kept, hkept, hloads, hsame⟩ := kept_of_addNumber.1 _ hfloat
  cases hkept
  obtain ⟨hbits, -⟩ | ⟨-, hother⟩ := hsame
  · exact absurd hbits (by decide)
  · refine ⟨hfloat, hloads, hother, hdouble, ?_⟩
    obtain ⟨kept, hkept, ⟨rfl, -⟩ | ⟨hzero, -⟩⟩ := kept_of_addNumber.2 _ hdouble
    · exact hkept
    · cases hzero

/-- **The bits of a negative zero are lost** in a pool with a positive one. -/
theorem not_all_bits_kept :
    ¬∀ pool pool' index bits, new.LeadsTo pool →
      (addFloat bits).runOn pool = (.ok index, pool') →
        pool'.constantAt index = some (.float bits) := by
  intro hall
  have hpool : new.LeadsTo ⟨#[none, some (.float 0)]⟩ := ⟨[.float 0], [1], by decide +kernel⟩
  have hadd : (addFloat 0x80000000).runOn ⟨#[none, some (.float 0)]⟩ =
      (.ok 1, ⟨#[none, some (.float 0)]⟩) := by decide +kernel
  have hkept := hall _ _ _ _ hpool hadd
  cases hkept

end Bytecode.ConstantPool
