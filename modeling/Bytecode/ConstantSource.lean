import Bytecode.Constant

/-!
# Looking constants up

Whoever resolves a reference needs no more of a constant pool than the constant at an index.

## Main definitions

* `ConstantSource`: the constant at every index
* `ResolveError`, `ResolveError.message`: why a reference cannot be resolved
* `ConstantSource.constant`, `ConstantSource.utf8`: a constant that has to be there, and a text
-/

namespace Bytecode

/-- **A source of constants**: at every index a constant or none. -/
structure ConstantSource where
  constantAt : UInt16 → Option Constant

/-- **Why a reference cannot be resolved**. -/
inductive ResolveError where
  | missing (index : UInt16)
  -- the constant at the index is of a kind that cannot be loaded
  | notLoadable (index : UInt16) (tag : Tag)
  -- the constant at the index should be of another kind
  | wrongKind (index : UInt16) (expected found : Tag)
  deriving DecidableEq

/-- The wording of a cause. -/
def ResolveError.message : ResolveError → String
  | missing index => s!"no constant at index {index.toNat}"
  | notLoadable index tag => s!"unknown or invalid constant type {tag.name} at {index.toNat}"
  | wrongKind index expected found =>
    s!"constant at {index.toNat} should be {expected.name}, found {found.name}"

namespace ConstantSource

/-- The source without constants. -/
def empty : ConstantSource := ⟨fun _ => none⟩

/-- The constant at an index, which has to be there. -/
def constant (source : ConstantSource) (index : UInt16) : Except ResolveError Constant :=
  match source.constantAt index with
  | some constant => .ok constant
  | none => .error (.missing index)

/-- The text at an index, which has to be there and to be a text. -/
def utf8 (source : ConstantSource) (index : UInt16) : Except ResolveError String := do
  match ← source.constant index with
  | .utf8 text => return text
  | other => throw (.wrongKind index .utf8 other.tag)

end ConstantSource

end Bytecode
