import Bytecode.LoadedValue

/-!
# How references resolve

What a reference loads, and of which type, is settled by the constant at its index and, for a text
object or a class, by the text that this constant refers to. A source may gain constants later.
Then nothing that could be resolved changes, nor anything that could not for the kind of a
constant; only what was missing may turn up.

## Main definitions

* `Constant.RefersTo`: the constants that refer to a text
* `Settled`: an outcome for which nothing was missing
* `ConstantSource.Extends`: a source with all the constants of another one
* `ConstantRef.Loads`: a reference loads a value of a type

## Main results

* `ConstantRef.value_of_some`, `ConstantRef.type_of_some`: what the constant at the index decides
* `ConstantRef.loads_string`, `ConstantRef.loads_classRef`: loading by way of a text
* `ConstantRef.value_eq_of_extends`, `ConstantRef.type_eq_of_extends`: settled outcomes stay
-/

namespace Bytecode

/-- **A constant refers to a text** by its index: it is a text object or a class. -/
inductive Constant.RefersTo (textIndex : UInt16) : Constant → Prop
  | string : RefersTo textIndex (.string textIndex)
  | classRef : RefersTo textIndex (.classRef textIndex)

/-- **A settled outcome** of a resolution: a value, or a failure for the kind of a constant. -/
def Settled {α : Type} (outcome : Except ResolveError α) : Prop :=
  ∀ index, outcome ≠ .error (.missing index)

namespace ConstantSource

/-- **A source extends to another** that has the same constants and maybe more. -/
def Extends (source source' : ConstantSource) : Prop :=
  ∀ index constant, source.constantAt index = some constant →
    source'.constantAt index = some constant

variable {source source' : ConstantSource} {index : UInt16}

theorem utf8_of_none (h : source.constantAt index = none) :
    source.utf8 index = .error (.missing index) := by
  simp only [utf8, constant, h]
  rfl

-- the hypothesis stands behind the colon, here and below, to stay out of the match
theorem utf8_of_some {constant : Constant} : source.constantAt index = some constant →
    source.utf8 index = match constant with
      | .utf8 text => .ok text
      | other => .error (.wrongKind index .utf8 other.tag) := by
  intro h
  simp only [utf8, ConstantSource.constant, h]
  cases constant <;> rfl

theorem Extends.utf8_eq (h : source.Extends source') (hsettled : Settled (source.utf8 index)) :
    source'.utf8 index = source.utf8 index := by
  cases hconstant : source.constantAt index with
  | none => exact absurd (utf8_of_none hconstant) (hsettled index)
  | some constant => rw [utf8_of_some hconstant, utf8_of_some (h index constant hconstant)]

end ConstantSource

namespace ConstantRef

variable {source source' : ConstantSource} {ref : ConstantRef}

theorem value_of_none (h : source.constantAt ref.index = none) :
    ref.value source = .error (.missing ref.index) := by
  simp only [value, ConstantSource.constant, h]
  rfl

/-- **The constant at the index decides** what is loaded, with the text it refers to. -/
theorem value_of_some {constant : Constant} : source.constantAt ref.index = some constant →
    ref.value source = match constant with
      | .integer value => .ok (.int value)
      | .float bits => .ok (.float bits)
      | .string text => (source.utf8 text).map .string
      | .classRef name => (source.utf8 name).map fun text => .classObject (.ofText text)
      | other => .error (.notLoadable ref.index other.tag) := by
  intro h
  simp only [value, ConstantSource.constant, h]
  cases constant <;> rfl

theorem type_of_none (h : source.constantAt ref.index = none) :
    ref.type source = .error (.missing ref.index) := by
  simp only [type, ConstantSource.constant, h]
  rfl

/-- **The constant at the index decides** the type of what is loaded. -/
theorem type_of_some {constant : Constant} : source.constantAt ref.index = some constant →
    ref.type source = match constant with
      | .integer _ => .ok .int
      | .float _ => .ok .float
      | .string _ => .ok .stringObject
      | .classRef _ => .ok .classObject
      | other => .error (.notLoadable ref.index other.tag) := by
  intro h
  simp only [type, ConstantSource.constant, h]
  cases constant <;> rfl

/-! ## What is loaded -/

/-- **A reference loads** a value of a type. -/
def Loads (source : ConstantSource) (ref : ConstantRef) (loaded : LoadedValue)
    (loadedType : ValueType) : Prop :=
  ref.value source = .ok loaded ∧ ref.type source = .ok loadedType

theorem loads_integer {value : Int32}
    (h : source.constantAt ref.index = some (.integer value)) :
    ref.Loads source (.int value) .int :=
  ⟨value_of_some h, type_of_some h⟩

theorem loads_float {bits : UInt32} (h : source.constantAt ref.index = some (.float bits)) :
    ref.Loads source (.float bits) .float :=
  ⟨value_of_some h, type_of_some h⟩

section ByText

variable {textIndex : UInt16} {text : String}

theorem loads_string (h : source.constantAt ref.index = some (.string textIndex))
    (htext : source.constantAt textIndex = some (.utf8 text)) :
    ref.Loads source (.string text) .stringObject := by
  refine ⟨(value_of_some h).trans ?_, type_of_some h⟩
  dsimp only
  rw [ConstantSource.utf8_of_some htext]
  rfl

theorem loads_classRef (h : source.constantAt ref.index = some (.classRef textIndex))
    (htext : source.constantAt textIndex = some (.utf8 text)) :
    ref.Loads source (.classObject (.ofText text)) .classObject := by
  refine ⟨(value_of_some h).trans ?_, type_of_some h⟩
  dsimp only
  rw [ConstantSource.utf8_of_some htext]
  rfl

end ByText

/-! ## What stays -/

theorem settled_of_settled_map {α β : Type} {outcome : Except ResolveError α} {f : α → β}
    (h : Settled (outcome.map f)) : Settled outcome := by
  rintro index rfl
  exact h index rfl

/-- **A settled value stays** when the source gains constants. -/
theorem value_eq_of_extends (h : source.Extends source') (hsettled : Settled (ref.value source)) :
    ref.value source' = ref.value source := by
  cases hconstant : source.constantAt ref.index with
  | none => exact absurd (value_of_none hconstant) (hsettled ref.index)
  | some constant =>
    rw [value_of_some hconstant] at hsettled
    rw [value_of_some hconstant, value_of_some (h _ _ hconstant)]
    cases constant with
    | string text =>
      dsimp only at hsettled ⊢
      rw [h.utf8_eq (settled_of_settled_map hsettled)]
    | classRef name =>
      dsimp only at hsettled ⊢
      rw [h.utf8_eq (settled_of_settled_map hsettled)]
    | _ => rfl

/-- **A settled type stays** when the source gains constants. -/
theorem type_eq_of_extends (h : source.Extends source') (hsettled : Settled (ref.type source)) :
    ref.type source' = ref.type source := by
  cases hconstant : source.constantAt ref.index with
  | none => exact absurd (type_of_none hconstant) (hsettled ref.index)
  | some constant => rw [type_of_some hconstant, type_of_some (h _ _ hconstant)]

end ConstantRef

end Bytecode
