import Bytecode.Opcode

/-!
# Integers folded into an opcode

The integers from -1 to 5 have an opcode each, which pushes them without an operand.

## Main definitions

* `SmallInt`, `SmallInt.toInt`: these integers
* `SmallInt.ofInt`: an integer as one of them, or the refusal `OutOfRange`
* `SmallInt.opcode`, `SmallInt.ofOpcode?`: the opcode that pushes one, and what an opcode pushes

## Main results

* `SmallInt.ofInt_eq_ok_iff`, `SmallInt.ofOpcode?_eq_some_iff`: both searches find exactly the
  small integer asked for
-/

namespace Bytecode

/-- **An integer from -1 to 5**. -/
inductive SmallInt where
  | minusOne
  | zero
  | one
  | two
  | three
  | four
  | five
  deriving DecidableEq

/-- The refusal of an integer that no opcode pushes. -/
structure OutOfRange where
  value : Int
  deriving DecidableEq

/-- The wording of the refusal. -/
def OutOfRange.message (refusal : OutOfRange) : String :=
  s!"iconst can be used only for values between -1 and 5: {refusal.value}"

namespace SmallInt

/-- All of them, in ascending order. -/
def all : List SmallInt := [minusOne, zero, one, two, three, four, five]

/-- The integer itself. -/
def toInt : SmallInt → Int
  | minusOne => -1
  | zero => 0
  | one => 1
  | two => 2
  | three => 3
  | four => 4
  | five => 5

/-- The opcode that pushes the integer. -/
def opcode : SmallInt → Opcode
  | minusOne => .iconstM1
  | zero => .iconst0
  | one => .iconst1
  | two => .iconst2
  | three => .iconst3
  | four => .iconst4
  | five => .iconst5

/-- The small integer with a given value, or the refusal of the value. -/
def ofInt (value : Int) : Except OutOfRange SmallInt :=
  match all.find? fun small => small.toInt == value with
  | some small => .ok small
  | none => .error ⟨value⟩

/-- The small integer that an opcode pushes, if it pushes one. -/
def ofOpcode? (wanted : Opcode) : Option SmallInt :=
  all.find? fun small => small.opcode == wanted

/-- The opcode bytes stand in the order of the integers. -/
theorem toNat_toByte_opcode (small : SmallInt) :
    (small.opcode.toByte.toNat : Int) = small.toInt + 3 := by
  cases small <;> rfl

@[simp] theorem ofInt_toInt (small : SmallInt) : ofInt small.toInt = .ok small := by
  cases small <;> rfl

@[simp] theorem ofOpcode?_opcode (small : SmallInt) : ofOpcode? small.opcode = some small := by
  cases small <;> rfl

/-- **A value is a small integer** exactly when the small integer has this value. -/
theorem ofInt_eq_ok_iff {value : Int} {small : SmallInt} :
    ofInt value = .ok small ↔ small.toInt = value := by
  constructor
  · intro h
    unfold ofInt at h
    split at h
    · next found hfound =>
      cases h
      simpa using List.find?_some hfound
    · cases h
  · rintro rfl
    exact ofInt_toInt small

/-- **An opcode pushes a small integer** exactly when it is the opcode of that integer. -/
theorem ofOpcode?_eq_some_iff {wanted : Opcode} {small : SmallInt} :
    ofOpcode? wanted = some small ↔ small.opcode = wanted := by
  constructor
  · intro h
    simpa using List.find?_some h
  · rintro rfl
    exact ofOpcode?_opcode small

end SmallInt

end Bytecode
