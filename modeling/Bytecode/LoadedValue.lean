import Bytecode.ConstantRef
import Bytecode.ConstantSource
import Bytecode.Decimal.Layout
import Bytecode.Text.Quoted
import Bytecode.ValueType

/-!
# What a reference to a constant loads

The constant referred to decides what is loaded, and its type: an integer, a single-precision
number, a text object or a class. The type is known from the kind of the constant alone, while
the value of a text object or a class has to follow one more index.

## Main definitions

* `LoadedValue`, `LoadedValue.text`: what is loaded, and how it is listed
* `ConstantRef.value`: what a reference loads from a source
* `ConstantRef.type`: the type of it
-/

namespace Bytecode

/-- **A loaded value**. -/
inductive LoadedValue where
  | int (value : Int32)
  | float (bits : UInt32)
  | string (text : String)
  | classObject (name : ClassName)
  deriving DecidableEq

namespace LoadedValue

/-- Numbers with a point have no exponent from a ten-thousandth up to ten to the sixteenth. -/
def numberLayout : Decimal.Layout := ⟨-4, 16⟩

/-- **The text of a loaded value**: a number with a point ends in `f`, a text is quoted, and a
class ends in `.class`. -/
def text : LoadedValue → String
  | int value => toString value.toInt
  | float bits => FloatFormat.single.write numberLayout bits.toNat ++ "f"
  | string text => Text.quoteString text
  | classObject name => name.dotted ++ ".class"

end LoadedValue

namespace ConstantRef

/-- **The value that a reference loads**. -/
def value (source : ConstantSource) (ref : ConstantRef) : Except ResolveError LoadedValue := do
  match ← source.constant ref.index with
  | .integer value => return .int value
  | .float bits => return .float bits
  | .string text => return .string (← source.utf8 text)
  | .classRef name => return .classObject (ClassName.ofText (← source.utf8 name))
  | other => throw (.notLoadable ref.index other.tag)

/-- **The type of the value that a reference loads**. -/
def type (source : ConstantSource) (ref : ConstantRef) : Except ResolveError ValueType := do
  match (← source.constant ref.index).tag with
  | .integer => return .int
  | .float => return .float
  | .string => return .stringObject
  | .classRef => return .classObject
  | tag => throw (.notLoadable ref.index tag)

end ConstantRef

end Bytecode
