import Bytecode.FloatFormat

/-!
# Constants

A constant is a text, a number, or a reference to other constants by index. Numbers with a point
are kept as their bits.

## Main definitions

* `Tag`, `Tag.name`, `Tag.number`: the kinds of constants
* `Constant`, `Constant.tag`: the constants
* `Constant.slots`: the number of indices a constant takes up
* `Constant.agrees`: the equality by which constants are shared
-/

namespace Bytecode

/-- **The kind of a constant**. -/
inductive Tag where
  | utf8
  | integer
  | float
  | long
  | double
  | classRef
  | string
  | fieldref
  | methodref
  | interfaceMethodref
  | nameAndType
  | methodHandle
  | methodType
  | invokeDynamic
  deriving DecidableEq

namespace Tag

/-- The name of a kind. -/
def name : Tag → String
  | utf8 => "Utf8"
  | integer => "Integer"
  | float => "Float"
  | long => "Long"
  | double => "Double"
  | classRef => "Class"
  | string => "String"
  | fieldref => "Fieldref"
  | methodref => "Methodref"
  | interfaceMethodref => "InterfaceMethodref"
  | nameAndType => "NameAndType"
  | methodHandle => "MethodHandle"
  | methodType => "MethodType"
  | invokeDynamic => "InvokeDynamic"

/-- The number of a kind. -/
def number : Tag → Nat
  | utf8 => 1
  | integer => 3
  | float => 4
  | long => 5
  | double => 6
  | classRef => 7
  | string => 8
  | fieldref => 9
  | methodref => 10
  | interfaceMethodref => 11
  | nameAndType => 12
  | methodHandle => 15
  | methodType => 16
  | invokeDynamic => 18

end Tag

/-- **A constant**. -/
inductive Constant where
  | utf8 (text : String)
  | integer (value : Int32)
  | float (bits : UInt32)
  | long (value : Int64)
  | double (bits : UInt64)
  -- a class, by the index of its name
  | classRef (name : UInt16)
  -- a text object, by the index of its text
  | string (text : UInt16)
  | fieldref (owner nameAndType : UInt16)
  | methodref (owner nameAndType : UInt16)
  | interfaceMethodref (owner nameAndType : UInt16)
  | nameAndType (name descriptor : UInt16)
  | methodHandle (kind : UInt8) (reference : UInt16)
  | methodType (descriptor : UInt16)
  | invokeDynamic (bootstrap nameAndType : UInt16)
  deriving DecidableEq

namespace Constant

/-- The kind of a constant. -/
def tag : Constant → Tag
  | utf8 _ => .utf8
  | integer _ => .integer
  | float _ => .float
  | long _ => .long
  | double _ => .double
  | classRef _ => .classRef
  | string _ => .string
  | fieldref _ _ => .fieldref
  | methodref _ _ => .methodref
  | interfaceMethodref _ _ => .interfaceMethodref
  | nameAndType _ _ => .nameAndType
  | methodHandle _ _ => .methodHandle
  | methodType _ => .methodType
  | invokeDynamic _ _ => .invokeDynamic

/-- The constant takes up two indices, of which the second stays empty. -/
def takesTwoSlots : Constant → Bool
  | long _ => true
  | double _ => true
  | _ => false

/-- The number of indices a constant takes up. -/
def slots (constant : Constant) : Nat :=
  if constant.takesTwoSlots then 2 else 1

theorem slots_pos (constant : Constant) : 0 < constant.slots := by
  unfold slots
  split <;> decide

theorem slots_le_two (constant : Constant) : constant.slots ≤ 2 := by
  unfold slots
  split <;> decide

/-- **Equality of constants**: the same kind and the same contents, where numbers with a point are
compared as numbers. -/
def agrees : Constant → Constant → Bool
  | float a, float b => FloatFormat.single.agree a.toNat b.toNat
  | double a, double b => FloatFormat.double.agree a.toNat b.toNat
  | a, b => decide (a = b)

end Constant

end Bytecode
