import Bytecode.Constant

/-!
# When constants agree

Constants are shared by an equality that compares numbers with a point as numbers. It is not
quite equality: the zeros of either sign agree, and what is no number does not agree with itself.
For all other constants, to agree is to be the same.

## Main definitions

* `Constant.isNaN`: the constants that do not agree with themselves
* `Constant.oppositeZero?`: the zero of the other sign

## Main results

* `FloatFormat.agree_iff`: when numbers are equal
* `Constant.agrees_iff`: when constants agree
* `Constant.agrees_self_iff`, `Constant.agrees_symm`, `Constant.agrees_trans`: which law of an
  equality fails, and which hold
-/

namespace Bytecode

namespace FloatFormat

variable (format : FloatFormat)

theorem isNaN_of_isZero {bits : Nat} (h : format.isZero bits = true) :
    format.isNaN bits = false := by
  simp only [isZero, Bool.and_eq_true, beq_iff_eq] at h
  simp [isNaN, h.2]

/-- **Numbers are equal** if they have the same bits, or are the zeros of the two signs. -/
theorem agree_iff (a b : Nat) :
    format.agree a b = true ↔
      (a = b ∧ format.isNaN b = false) ∨
        (a ≠ b ∧ format.isZero a = true ∧ format.isZero b = true) := by
  simp only [agree, Bool.and_eq_true, Bool.or_eq_true, Bool.not_eq_true', beq_iff_eq]
  constructor
  · rintro ⟨⟨-, hb⟩, hab⟩
    by_cases hsame : a = b
    · exact .inl ⟨hsame, hb⟩
    · exact .inr ⟨hsame, hab.resolve_left hsame⟩
  · rintro (⟨rfl, hb⟩ | ⟨-, ha, hb⟩)
    · exact ⟨⟨hb, hb⟩, .inl rfl⟩
    · exact ⟨⟨format.isNaN_of_isZero ha, format.isNaN_of_isZero hb⟩, .inr ⟨ha, hb⟩⟩

theorem isZero_single_iff (bits : UInt32) :
    single.isZero bits.toNat = true ↔ bits = 0 ∨ bits = 0x80000000 := by
  have hbits := bits.toNat_lt
  rw [← UInt32.toNat_inj, ← UInt32.toNat_inj]
  simp only [isZero, exponentField, fraction, single, Bool.and_eq_true, beq_iff_eq,
    Nat.pow_eq, UInt32.toNat_ofNat]
  omega

theorem isZero_double_iff (bits : UInt64) :
    double.isZero bits.toNat = true ↔ bits = 0 ∨ bits = 0x8000000000000000 := by
  have hbits := bits.toNat_lt
  rw [← UInt64.toNat_inj, ← UInt64.toNat_inj]
  simp only [isZero, exponentField, fraction, double, Bool.and_eq_true, beq_iff_eq,
    Nat.pow_eq, UInt64.toNat_ofNat]
  omega

end FloatFormat

namespace Constant

/-- The constant is a number with a point whose bits stand for no number. -/
def isNaN : Constant → Bool
  | float bits => FloatFormat.single.isNaN bits.toNat
  | double bits => FloatFormat.double.isNaN bits.toNat
  | _ => false

/-- **The zero of the other sign**, for a zero with a point. -/
def oppositeZero? : Constant → Option Constant
  | float bits =>
    if bits = 0 then some (float 0x80000000)
    else if bits = 0x80000000 then some (float 0)
    else none
  | double bits =>
    if bits = 0 then some (double 0x8000000000000000)
    else if bits = 0x8000000000000000 then some (double 0)
    else none
  | _ => none

theorem oppositeZero?_float_eq_some_iff {a b : UInt32} :
    (float b).oppositeZero? = some (float a) ↔
      a ≠ b ∧ FloatFormat.single.isZero a.toNat = true ∧
        FloatFormat.single.isZero b.toNat = true := by
  rw [FloatFormat.isZero_single_iff, FloatFormat.isZero_single_iff]
  grind [oppositeZero?]

theorem oppositeZero?_double_eq_some_iff {a b : UInt64} :
    (double b).oppositeZero? = some (double a) ↔
      a ≠ b ∧ FloatFormat.double.isZero a.toNat = true ∧
        FloatFormat.double.isZero b.toNat = true := by
  rw [FloatFormat.isZero_double_iff, FloatFormat.isZero_double_iff]
  grind [oppositeZero?]

/-- The zero of the other sign has the same precision. -/
theorem exists_of_oppositeZero?_float {bits : UInt32} {other : Constant}
    (h : (float bits).oppositeZero? = some other) : ∃ otherBits, other = float otherBits := by
  grind [oppositeZero?]

theorem exists_of_oppositeZero?_double {bits : UInt64} {other : Constant}
    (h : (double bits).oppositeZero? = some other) : ∃ otherBits, other = double otherBits := by
  grind [oppositeZero?]

/-- A zero differs from the zero of the other sign. -/
theorem ne_of_oppositeZero? {constant other : Constant}
    (h : constant.oppositeZero? = some other) : other ≠ constant := by
  rintro rfl
  cases other with
  | float bits => exact (oppositeZero?_float_eq_some_iff.mp h).1 rfl
  | double bits => exact (oppositeZero?_double_eq_some_iff.mp h).1 rfl
  | _ => cases h

/-- **Constants agree** if they are the same, unless they stand for no number, or if they are the
zeros of the two signs. -/
theorem agrees_iff (a b : Constant) :
    a.agrees b = true ↔ (a = b ∧ b.isNaN = false) ∨ b.oppositeZero? = some a := by
  unfold agrees
  split
  · next a b =>
    rw [FloatFormat.agree_iff, ne_eq, UInt32.toNat_inj, oppositeZero?_float_eq_some_iff, float.injEq,
      isNaN]
  · next a b =>
    rw [FloatFormat.agree_iff, ne_eq, UInt64.toNat_inj, oppositeZero?_double_eq_some_iff,
      double.injEq, isNaN]
  · next hfloat hdouble =>
    -- a number with a point has another kind of constant beside it here
    cases b with
    | float bits => grind [oppositeZero?]
    | double bits => grind [oppositeZero?]
    | _ => simp [isNaN, oppositeZero?]

theorem agrees_of_oppositeZero? {constant other : Constant}
    (h : constant.oppositeZero? = some other) : other.agrees constant = true :=
  (agrees_iff _ _).mpr (.inr h)

/-- A zero agrees with itself. -/
theorem agrees_self_of_oppositeZero? {constant other : Constant}
    (h : constant.oppositeZero? = some other) : constant.agrees constant = true := by
  refine (agrees_iff _ _).mpr (.inl ⟨rfl, ?_⟩)
  cases constant with
  | float bits =>
    obtain ⟨otherBits, rfl⟩ := exists_of_oppositeZero?_float h
    exact FloatFormat.single.isNaN_of_isZero (oppositeZero?_float_eq_some_iff.mp h).2.2
  | double bits =>
    obtain ⟨otherBits, rfl⟩ := exists_of_oppositeZero?_double h
    exact FloatFormat.double.isNaN_of_isZero (oppositeZero?_double_eq_some_iff.mp h).2.2
  | _ => rfl

/-- Each of the two zeros is the opposite of the other. -/
theorem oppositeZero?_eq_some_comm {a b : Constant} :
    a.oppositeZero? = some b ↔ b.oppositeZero? = some a := by
  suffices h : ∀ {a b : Constant}, a.oppositeZero? = some b → b.oppositeZero? = some a from ⟨h, h⟩
  intro a b h
  cases a with
  | float bits =>
    obtain ⟨otherBits, rfl⟩ := exists_of_oppositeZero?_float h
    obtain ⟨hne, hother, hzero⟩ := oppositeZero?_float_eq_some_iff.mp h
    exact oppositeZero?_float_eq_some_iff.mpr ⟨hne.symm, hzero, hother⟩
  | double bits =>
    obtain ⟨otherBits, rfl⟩ := exists_of_oppositeZero?_double h
    obtain ⟨hne, hother, hzero⟩ := oppositeZero?_double_eq_some_iff.mp h
    exact oppositeZero?_double_eq_some_iff.mpr ⟨hne.symm, hzero, hother⟩
  | _ => cases h

/-- A constant agrees with itself unless it stands for no number. -/
theorem agrees_self_iff (constant : Constant) :
    constant.agrees constant = true ↔ constant.isNaN = false := by
  rw [agrees_iff]
  constructor
  · rintro (⟨-, hnumber⟩ | hzero)
    · exact hnumber
    · exact absurd rfl (ne_of_oppositeZero? hzero)
  · exact fun hnumber => .inl ⟨rfl, hnumber⟩

/-- **Constants agree mutually**. -/
theorem agrees_symm {a b : Constant} (h : a.agrees b = true) : b.agrees a = true := by
  rcases (agrees_iff a b).mp h with ⟨rfl, -⟩ | hzero
  · exact h
  · exact agrees_of_oppositeZero? (oppositeZero?_eq_some_comm.mp hzero)

theorem agrees_comm (a b : Constant) : a.agrees b = b.agrees a :=
  Bool.eq_iff_iff.mpr ⟨agrees_symm, agrees_symm⟩

/-- **Constants that agree with the same one** agree. -/
theorem agrees_trans {a b c : Constant} (hab : a.agrees b = true) (hbc : b.agrees c = true) :
    a.agrees c = true := by
  rcases (agrees_iff a b).mp hab with ⟨rfl, -⟩ | hzero
  · exact hbc
  rcases (agrees_iff b c).mp hbc with ⟨rfl, -⟩ | hzero'
  · exact hab
  · -- the zero opposite to the opposite of a zero is that zero
    obtain rfl : a = c := by
      rw [oppositeZero?_eq_some_comm.mp hzero', Option.some.injEq] at hzero
      exact hzero.symm
    exact agrees_self_of_oppositeZero? hzero'

end Constant

end Bytecode
