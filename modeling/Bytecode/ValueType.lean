import Bytecode.Text.Replace

/-!
# Types of values

A value has a primitive type or the type of the objects of a class. Classes are named with dots;
in signatures and in constants the same names are written with slashes.

## Main definitions

* `ClassName`: a class name, in its dotted form
* `ClassName.ofText`: the class a text names, with dots or with slashes
* `ClassName.internal`, `ClassName.signature`: the form with slashes, and the signature
* `ValueType`: the types, with `ValueType.text`, `ValueType.signature` and `ValueType.words`
-/

namespace Bytecode

/-- **The name of a class**, with dots between its parts. -/
structure ClassName where
  dotted : String
  -- slashes never stand in it: they would be read as dots
  no_slash : '/' ∉ dotted.toList
  deriving DecidableEq

namespace ClassName

/-- The class named by a text whose parts are joined by dots or slashes. -/
def ofText (text : String) : ClassName where
  dotted := Text.replace '/' '.' text
  no_slash := Text.not_mem_replace (by decide) text

/-- The name with slashes. -/
def internal (name : ClassName) : String := Text.replace '.' '/' name.dotted

/-- The signature of the type of its objects. -/
def signature (name : ClassName) : String := "L" ++ name.internal ++ ";"

@[simp] theorem dotted_ofText (text : String) :
    (ofText text).dotted = Text.replace '/' '.' text := rfl

/-- **The form with slashes names the same class**. -/
@[simp] theorem ofText_internal (name : ClassName) : ofText name.internal = name := by
  rcases name with ⟨dotted, h⟩
  simp only [ofText, internal, mk.injEq]
  exact Text.replace_replace h

/-- **A text with slashes for its dots names the same class**. -/
@[simp] theorem ofText_replace (text : String) :
    ofText (Text.replace '.' '/' text) = ofText text := by
  simp only [ofText, mk.injEq]
  exact Text.replace_replace_eq '.' '/' text

end ClassName

/-- **The type of a value**. -/
inductive ValueType where
  | boolean
  | byte
  | char
  | short
  | int
  | long
  | float
  | double
  | object (name : ClassName)
  deriving DecidableEq

namespace ValueType

/-- The type of texts. -/
def stringObject : ValueType := object (ClassName.ofText "java.lang.String")

/-- The type of classes. -/
def classObject : ValueType := object (ClassName.ofText "java.lang.Class")

/-- The name of a type. -/
def text : ValueType → String
  | boolean => "boolean"
  | byte => "byte"
  | char => "char"
  | short => "short"
  | int => "int"
  | long => "long"
  | float => "float"
  | double => "double"
  | object name => name.dotted

/-- The signature of a type: one letter, or that of a class. -/
def signature : ValueType → String
  | boolean => "Z"
  | byte => "B"
  | char => "C"
  | short => "S"
  | int => "I"
  | long => "J"
  | float => "F"
  | double => "D"
  | object name => name.signature

/-- The stack words that a value of the type takes. -/
def words : ValueType → Nat
  | long => 2
  | double => 2
  | _ => 1

/-- Values of the type are references. -/
def isReference : ValueType → Bool
  | object _ => true
  | _ => false

end ValueType

end Bytecode
