import Bytecode.Proofs.ConstantPool.Growth
import Mathlib.Control.Monad.Basic

/-!
# Shared constants

Interning shares the first constant that agrees. A pool into which nothing was pushed therefore has
no two constants that agree. A pool with pushed constants may have such constants, but an index
once given for a constant is its first one, and it stays so: whoever adds the constant again, now
or later, gets this index, and the pool does not change.

## Main definitions

* `ConstantPool.IsFirst`: the first index of a constant
* `ConstantPool.Distinct`: no two constants of a pool agree
* `Addition.Interns`: the constant whose index an addition gives

## Main results

* `ConstantPool.IsFirst.growsTo`: a first index stays the first one
* `ConstantPool.Distinct.of_intern`: interning keeps the constants distinct
* `ConstantPool.shared_of_additions`: what is shared, and from then on
-/

namespace Bytecode

namespace ConstantPool

variable {pool pool' : ConstantPool} {constant other : Constant} {index : UInt16}

/-! ## The first index of a constant -/

section First

/-- **The first index of a constant**: a constant that agrees with it stands there, and none
stands before. -/
structure IsFirst (pool : ConstantPool) (constant : Constant) (index : UInt16) : Prop where
  stands : ∃ found, pool.constantAt index = some found ∧ found.agrees constant = true
  none_before : ∀ earlier < index, ∀ found, pool.constantAt earlier = some found →
    found.agrees constant = false

theorem isFirst_iff_find? : pool.IsFirst constant index ↔ pool.find? constant = some index := by
  rw [find?_eq_some_iff]
  exact ⟨fun h => ⟨h.stands, h.none_before⟩, fun h => ⟨h.1, h.2⟩⟩

/-- Interning gives the first index, and changes nothing if there is one. -/
theorem IsFirst.runOn_intern (h : pool.IsFirst constant index) :
    (intern constant).runOn pool = (.ok index, pool) :=
  runOn_intern_eq_ok_iff.mpr (.inl ⟨isFirst_iff_find?.mp h, rfl⟩)

/-- **What is interned gets a first index**, unless it stands for no number. -/
theorem isFirst_of_intern (hnumber : constant.isNaN = false)
    (h : (intern constant).runOn pool = (.ok index, pool')) : pool'.IsFirst constant index := by
  rw [isFirst_iff_find?]
  rcases runOn_intern_eq_ok_iff.mp h with ⟨hfind, rfl⟩ | ⟨hnone, hpush⟩
  · exact hfind
  · obtain ⟨hroom, rfl, rfl⟩ := runOn_push_eq_ok_iff.mp hpush
    exact find?_append_self hnumber (Nat.le_of_add_right_le hroom) hnone

/-- **A first index stays the first one**, whatever is appended. -/
theorem IsFirst.growsTo (h : pool.IsFirst constant index) (hgrows : pool.GrowsTo pool') :
    pool'.IsFirst constant index := by
  obtain ⟨found, hfound, hagrees⟩ := h.stands
  refine ⟨⟨found, hgrows.constantAt_eq_some hfound, hagrees⟩, fun earlier hlt => ?_⟩
  have hbelow : earlier.toNat < pool.size :=
    Nat.lt_trans (UInt16.lt_iff_toNat_lt.mp hlt) (toNat_lt_size hfound)
  rw [hgrows.constantAt_of_lt_size hbelow]
  exact h.none_before earlier hlt

/-- Constants that agree have the same first index. -/
theorem IsFirst.of_agrees (h : pool.IsFirst constant index)
    (hagrees : other.agrees constant = true) : pool.IsFirst other index := by
  obtain ⟨found, hfound, hsame⟩ := h.stands
  refine ⟨⟨found, hfound, Constant.agrees_trans hsame (Constant.agrees_symm hagrees)⟩, ?_⟩
  intro earlier hlt before hbefore
  have hdiffers := h.none_before earlier hlt before hbefore
  refine Bool.eq_false_iff.mpr fun hother => ?_
  rw [Constant.agrees_trans hother hagrees] at hdiffers
  cases hdiffers

end First

/-! ## Pools without duplicates -/

section Duplicates

/-- **No two constants agree**: those that do stand at one index. -/
def Distinct (pool : ConstantPool) : Prop :=
  ∀ i j found other, pool.constantAt i = some found → pool.constantAt j = some other →
    found.agrees other = true → i = j

theorem distinct_new : new.Distinct := by
  intro i j found other hfound
  rw [constantAt_new] at hfound
  cases hfound

/-- A constant that is not found can be appended. -/
theorem Distinct.append (h : pool.Distinct) (hnone : pool.find? constant = none) :
    (pool.append constant).Distinct := by
  have hdiffers := find?_eq_none_iff.mp hnone
  intro i j found other hfound hother hagrees
  rw [constantAt_append] at hfound hother
  split at hfound <;> split at hother
  · next hi hj => exact UInt16.toNat_inj.mp (hi.trans hj.symm)
  · -- the new constant agrees with an older one
    cases hfound
    have hsame := hdiffers j other hother
    rw [Constant.agrees_symm hagrees] at hsame
    cases hsame
  · cases hother
    have hsame := hdiffers i found hfound
    rw [hagrees] at hsame
    cases hsame
  · exact h i j found other hfound hother hagrees

/-- **Interning keeps the constants distinct**. -/
theorem Distinct.of_intern (h : pool.Distinct)
    (hrun : (intern constant).runOn pool = (.ok index, pool')) : pool'.Distinct := by
  rcases runOn_intern_eq_ok_iff.mp hrun with ⟨-, rfl⟩ | ⟨hnone, hpush⟩
  · exact h
  · obtain ⟨-, -, rfl⟩ := runOn_push_eq_ok_iff.mp hpush
    exact h.append hnone

/-- Every addition but a push keeps the constants distinct. -/
theorem Distinct.of_build {addition : Addition} (h : pool.Distinct)
    (hpush : ∀ constant, addition ≠ .push constant)
    (hrun : addition.build.runOn pool = (.ok index, pool')) : pool'.Distinct := by
  rcases addition.build_cases with
    ⟨constant, hbuild⟩ | ⟨constant, hbuild⟩ | ⟨text, refer, hbuild⟩
  · exact absurd hbuild (hpush constant)
  · rw [hbuild] at hrun
    exact h.of_intern hrun
  · rw [hbuild] at hrun
    obtain ⟨textIndex, middle, htext, hrefer⟩ := Building.runOn_bind_eq_ok hrun
    exact (h.of_intern htext).of_intern hrefer

end Duplicates

end ConstantPool

open ConstantPool

/-! ## What additions intern -/

namespace Addition

variable {addition : Addition} {pool pool' : ConstantPool} {constant : Constant} {index : UInt16}

/-- **The constant whose index an addition gives**: the value itself, or what refers to the first
index of its text. A push has none. -/
inductive Interns (pool : ConstantPool) : Addition → Constant → Prop
  | utf8 (text : String) : Interns pool (.utf8 text) (.utf8 text)
  | integer (value : Int32) : Interns pool (.integer value) (.integer value)
  | float (bits : UInt32) : Interns pool (.float bits) (.float bits)
  | long (value : Int64) : Interns pool (.long value) (.long value)
  | double (bits : UInt64) : Interns pool (.double bits) (.double bits)
  | string {text : String} {textIndex : UInt16} (h : pool.IsFirst (.utf8 text) textIndex) :
      Interns pool (.string text) (.string textIndex)
  | classNamed {name : String} {nameIndex : UInt16}
      (h : pool.IsFirst (.utf8 (Text.replace '.' '/' name)) nameIndex) :
      Interns pool (.classNamed name) (.classRef nameIndex)

/-- An addition is no more than interning its constant, once its text has an index. -/
theorem Interns.runOn_build (h : addition.Interns pool constant) :
    addition.build.runOn pool = (intern constant).runOn pool := by
  cases h with
  | string htext => exact Building.runOn_bind_of_ok htext.runOn_intern _
  | classNamed hname => exact Building.runOn_bind_of_ok hname.runOn_intern _
  | _ => rfl

/-- The constant of an addition stays the same, whatever is appended. -/
theorem Interns.growsTo (h : addition.Interns pool constant) (hgrows : pool.GrowsTo pool') :
    addition.Interns pool' constant := by
  cases h with
  | utf8 text => exact .utf8 text
  | integer value => exact .integer value
  | float bits => exact .float bits
  | long value => exact .long value
  | double bits => exact .double bits
  | string htext => exact .string (htext.growsTo hgrows)
  | classNamed hname => exact .classNamed (hname.growsTo hgrows)

/-- **An addition that succeeds**, and is no push, has interned its constant. -/
theorem exists_interns_of_ok (hpush : ∀ constant, addition ≠ .push constant)
    (h : addition.build.runOn pool = (.ok index, pool')) :
    ∃ constant middle, addition.Interns pool' constant ∧
      (intern constant).runOn middle = (.ok index, pool') := by
  cases addition with
  | push constant => exact absurd rfl (hpush constant)
  | string text =>
    obtain ⟨textIndex, middle, htext, hrefer⟩ := Building.runOn_bind_eq_ok h
    have hfirst := (isFirst_of_intern rfl htext).growsTo (.of_intern hrefer)
    exact ⟨.string textIndex, middle, .string hfirst, hrefer⟩
  | classNamed name =>
    obtain ⟨nameIndex, middle, hname, hrefer⟩ := Building.runOn_bind_eq_ok h
    have hfirst := (isFirst_of_intern rfl hname).growsTo (.of_intern hrefer)
    exact ⟨.classRef nameIndex, middle, .classNamed hfirst, hrefer⟩
  | utf8 text => exact ⟨_, pool, .utf8 text, h⟩
  | integer value => exact ⟨_, pool, .integer value, h⟩
  | float bits => exact ⟨_, pool, .float bits, h⟩
  | long value => exact ⟨_, pool, .long value, h⟩
  | double bits => exact ⟨_, pool, .double bits, h⟩

end Addition

namespace ConstantPool

/-- **What is shared**. Additions without a push never give two indices to constants that agree.
In any pool an addition that is no push gives the first index of its constant. Unless this stands
for no number, the same addition then changes nothing and gives the same index; and so it does at
any later time, as does every addition of a constant that agrees, whatever was added or pushed in
between. -/
theorem shared_of_additions :
    (∀ additions indices pool, (∀ constant, Addition.push constant ∉ additions) →
      (buildAll additions).runOn new = (.ok indices, pool) → pool.Distinct) ∧
    ∀ (pool pool' : ConstantPool) (first : Addition) index,
      (∀ constant, first ≠ .push constant) → first.build.runOn pool = (.ok index, pool') →
        ∃ constant, first.Interns pool' constant ∧
          (constant.isNaN = false →
            pool'.IsFirst constant index ∧
            first.build.runOn pool' = (.ok index, pool') ∧
            ∀ later, pool'.LeadsTo later →
              first.build.runOn later = (.ok index, later) ∧
              ∀ (second : Addition) other, second.Interns later other →
                other.agrees constant = true →
                  second.build.runOn later = (.ok index, later)) := by
  constructor
  · intro additions indices pool hpush hrun
    refine buildAll_induction (fun addition hmem middle index last hdistinct hstep => ?_) hrun
      distinct_new
    refine hdistinct.of_build (fun constant hsame => ?_) hstep
    exact hpush constant (hsame ▸ hmem)
  · intro pool pool' first index hpush hrun
    obtain ⟨constant, middle, hinterns, hintern⟩ := first.exists_interns_of_ok hpush hrun
    refine ⟨constant, hinterns, fun hnumber => ?_⟩
    have hfirst := isFirst_of_intern hnumber hintern
    refine ⟨hfirst, ?_, fun later hlater => ⟨?_, fun second other hsecond hagrees => ?_⟩⟩
    · rw [hinterns.runOn_build, hfirst.runOn_intern]
    · have hstays := hfirst.growsTo hlater.growsTo
      rw [(hinterns.growsTo hlater.growsTo).runOn_build, hstays.runOn_intern]
    · have hstays := (hfirst.growsTo hlater.growsTo).of_agrees hagrees
      rw [hsecond.runOn_build, hstays.runOn_intern]

/-- Zeros of either sign, a text and the text object of it; and a pool with two copies of a text
and the text object of the second one, where that of the first is added twice, with a push in
between. -/
theorem shared_of_additions_pushed :
    (buildAll [.float 0, .string "a", .float 0x80000000, .utf8 "a"]).runOn new =
        (.ok [1, 3, 1, 2], ⟨#[none, some (.float 0), some (.utf8 "a"), some (.string 2)]⟩) ∧
      Distinct ⟨#[none, some (.float 0), some (.utf8 "a"), some (.string 2)]⟩ ∧
      (Addition.string "a").build.runOn
          ⟨#[none, some (.utf8 "a"), some (.utf8 "a"), some (.string 2)]⟩ =
        (.ok 4, ⟨#[none, some (.utf8 "a"), some (.utf8 "a"), some (.string 2),
          some (.string 1)]⟩) ∧
      (Addition.string "a").build.runOn ⟨#[none, some (.utf8 "a"), some (.utf8 "a"),
          some (.string 2), some (.string 1), some (.string 1)]⟩ =
        (.ok 4, ⟨#[none, some (.utf8 "a"), some (.utf8 "a"), some (.string 2), some (.string 1),
          some (.string 1)]⟩) := by
  have hbuild : (buildAll [.float 0, .string "a", .float 0x80000000, .utf8 "a"]).runOn new =
      (.ok [1, 3, 1, 2], ⟨#[none, some (.float 0), some (.utf8 "a"), some (.string 2)]⟩) := by
    decide +kernel
  have hfirst : (Addition.string "a").build.runOn
      ⟨#[none, some (.utf8 "a"), some (.utf8 "a"), some (.string 2)]⟩ =
        (.ok 4, ⟨#[none, some (.utf8 "a"), some (.utf8 "a"), some (.string 2),
          some (.string 1)]⟩) := by decide +kernel
  have hlater : LeadsTo ⟨#[none, some (.utf8 "a"), some (.utf8 "a"), some (.string 2),
      some (.string 1)]⟩ ⟨#[none, some (.utf8 "a"), some (.utf8 "a"), some (.string 2),
      some (.string 1), some (.string 1)]⟩ := ⟨[.push (.string 1)], [5], by decide +kernel⟩
  refine ⟨hbuild, shared_of_additions.1 _ _ _ (by simp) hbuild, hfirst, ?_⟩
  obtain ⟨constant, hinterns, hshared⟩ := shared_of_additions.2 _ _ _ _ (by simp) hfirst
  have hnumber : constant.isNaN = false := by
    cases hinterns
    rfl
  exact ((hshared hnumber).2.2 _ hlater).1

end ConstantPool

end Bytecode
