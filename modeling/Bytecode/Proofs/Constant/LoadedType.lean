import Bytecode.Proofs.Constant.Resolution

/-!
# The type of what is loaded

The kind of a constant alone tells the type of what a reference to it loads. The value may have to
follow one more index, so it can be missing where the type is known, but not the other way round.
A failure names an index: that of the reference, or that of the text its constant refers to.

## Main definitions

* `LoadedValue.HasType`: the type of a loaded value
* `Tag.IsLoadable`: the kinds of constants that can be loaded
* `ConstantSource.LacksText`: why there is no text at an index
* `ConstantSource.Resolves`: a value and a type, or why there is none, for an index

## Main results

* `ConstantRef.resolves`: value and type of a reference are those for its index
* `ConstantRef.type_eq_error_iff`: when there is no type
* `ConstantRef.type_without_value_iff`: when there is a type, and no value
* `ConstantRef.value_agrees_with_type`: value and type of every reference to every source
-/

namespace Bytecode

/-- **The type of a loaded value**. -/
inductive LoadedValue.HasType : LoadedValue → ValueType → Prop
  | int (value : Int32) : HasType (.int value) .int
  | float (bits : UInt32) : HasType (.float bits) .float
  | string (text : String) : HasType (.string text) (.object (.ofText "java.lang.String"))
  | classObject (name : ClassName) :
      HasType (.classObject name) (.object (.ofText "java.lang.Class"))

/-- **The kinds of constants that can be loaded**. -/
inductive Tag.IsLoadable : Tag → Prop
  | integer : IsLoadable .integer
  | float : IsLoadable .float
  | string : IsLoadable .string
  | classRef : IsLoadable .classRef

namespace ConstantSource

variable {source : ConstantSource} {index : UInt16} {e : ResolveError}

/-- **Why there is no text at an index**: no constant stands there, or one of another kind. -/
inductive LacksText (source : ConstantSource) (index : UInt16) : ResolveError → Prop
  | missing (h : source.constantAt index = none) : LacksText source index (.missing index)
  | wrongKind {found : Constant} (h : source.constantAt index = some found)
      (hkind : found.tag ≠ .utf8) : LacksText source index (.wrongKind index .utf8 found.tag)

theorem utf8_eq_error_iff : source.utf8 index = .error e ↔ source.LacksText index e := by
  constructor
  · intro h
    cases hconstant : source.constantAt index with
    | none =>
      rw [utf8_of_none hconstant] at h
      cases h
      exact .missing hconstant
    | some found =>
      rw [utf8_of_some hconstant] at h
      cases found with
      | utf8 text => cases h
      | _ =>
        cases h
        exact .wrongKind hconstant Tag.noConfusion
  · intro h
    cases h with
    | missing hnone => exact utf8_of_none hnone
    | @wrongKind found hfound hkind =>
      rw [utf8_of_some hfound]
      cases found with
      | utf8 text => exact absurd rfl hkind
      | _ => rfl

/-- **The value and the type for an index**: both are there, or only the type since a text is
lacking, or neither of them, for one and the same cause. -/
inductive Resolves (source : ConstantSource) (index : UInt16) :
    Except ResolveError LoadedValue → Except ResolveError ValueType → Prop
  | loaded {loaded : LoadedValue} {type : ValueType} (h : loaded.HasType type) :
      Resolves source index (.ok loaded) (.ok type)
  | lacksText {constant : Constant} {textIndex : UInt16} {e : ResolveError} {type : ValueType}
      (h : source.constantAt index = some constant) (hrefers : constant.RefersTo textIndex)
      (htext : source.LacksText textIndex e) : Resolves source index (.error e) (.ok type)
  | missing (h : source.constantAt index = none) :
      Resolves source index (.error (.missing index)) (.error (.missing index))
  | notLoadable {constant : Constant} (h : source.constantAt index = some constant)
      (hkind : ¬constant.tag.IsLoadable) :
      Resolves source index (.error (.notLoadable index constant.tag))
        (.error (.notLoadable index constant.tag))

end ConstantSource

namespace ConstantRef

open ConstantSource

variable {source : ConstantSource} {ref other : ConstantRef} {e : ResolveError}

/-- Going on from a text to what is loaded, of a type that does not depend on the text. -/
theorem resolves_text {constant : Constant} {textIndex : UInt16} {type : ValueType}
    {make : String → LoadedValue} (h : source.constantAt ref.index = some constant)
    (hrefers : constant.RefersTo textIndex) (htype : ∀ text, (make text).HasType type) :
    source.Resolves ref.index ((source.utf8 textIndex).map make) (.ok type) := by
  cases htext : source.utf8 textIndex with
  | ok text => exact .loaded (htype text)
  | error e => exact .lacksText h hrefers (utf8_eq_error_iff.mp htext)

/-- **Value and type of a reference** are those for its index. -/
theorem resolves (source : ConstantSource) (ref : ConstantRef) :
    source.Resolves ref.index (ref.value source) (ref.type source) := by
  cases hconstant : source.constantAt ref.index with
  | none =>
    rw [value_of_none hconstant, type_of_none hconstant]
    exact .missing hconstant
  | some constant =>
    rw [value_of_some hconstant, type_of_some hconstant]
    -- one case for each kind; the kinds that cannot be loaded are alike
    cases constant with
    | integer value => exact .loaded (.int value)
    | float bits => exact .loaded (.float bits)
    | string textIndex => exact resolves_text hconstant .string LoadedValue.HasType.string
    | classRef nameIndex =>
      exact resolves_text hconstant .classRef fun name => .classObject (.ofText name)
    | _ => exact .notLoadable hconstant (by rintro ⟨⟩)

/-! ## What fails, and where -/

/-- **There is no type** exactly if there is no constant, or one that cannot be loaded. -/
theorem type_eq_error_iff :
    ref.type source = .error e ↔
      (source.constantAt ref.index = none ∧ e = .missing ref.index) ∨
        ∃ constant, source.constantAt ref.index = some constant ∧ ¬constant.tag.IsLoadable ∧
          e = .notLoadable ref.index constant.tag := by
  constructor
  · intro h
    have hresolves := ref.resolves source
    rw [h] at hresolves
    generalize ref.value source = outcome at hresolves
    cases hresolves with
    | missing hnone => exact .inl ⟨hnone, rfl⟩
    | notLoadable hconstant hkind => exact .inr ⟨_, hconstant, hkind, rfl⟩
  · rintro (⟨hnone, rfl⟩ | ⟨constant, hconstant, hkind, rfl⟩)
    · exact type_of_none hnone
    · rw [type_of_some hconstant]
      cases constant with
      | integer value => exact absurd .integer hkind
      | float bits => exact absurd .float hkind
      | string textIndex => exact absurd .string hkind
      | classRef nameIndex => exact absurd .classRef hkind
      | _ => rfl

theorem type_of_refersTo {constant : Constant} {textIndex : UInt16}
    (h : source.constantAt ref.index = some constant) (hrefers : constant.RefersTo textIndex) :
    ∃ type, ref.type source = .ok type := by
  rw [type_of_some h]
  cases hrefers with
  | string => exact ⟨_, rfl⟩
  | classRef => exact ⟨_, rfl⟩

theorem value_of_lacksText {constant : Constant} {textIndex : UInt16}
    (h : source.constantAt ref.index = some constant) (hrefers : constant.RefersTo textIndex)
    (htext : source.LacksText textIndex e) : ref.value source = .error e := by
  rw [value_of_some h]
  cases hrefers with
  | string =>
    show (source.utf8 textIndex).map _ = _
    rw [utf8_eq_error_iff.mpr htext]
    rfl
  | classRef =>
    show (source.utf8 textIndex).map _ = _
    rw [utf8_eq_error_iff.mpr htext]
    rfl

/-- **There is a type, and no value**, exactly if the text that the constant refers to is
lacking. -/
theorem type_without_value_iff :
    (∃ type, ref.type source = .ok type) ∧ ref.value source = .error e ↔
      ∃ constant textIndex, source.constantAt ref.index = some constant ∧
        constant.RefersTo textIndex ∧ source.LacksText textIndex e := by
  constructor
  · rintro ⟨⟨type, htype⟩, hvalue⟩
    have hresolves := ref.resolves source
    rw [htype, hvalue] at hresolves
    cases hresolves with
    | lacksText hconstant hrefers htext => exact ⟨_, _, hconstant, hrefers, htext⟩
  · rintro ⟨constant, textIndex, hconstant, hrefers, htext⟩
    exact ⟨type_of_refersTo hconstant hrefers, value_of_lacksText hconstant hrefers htext⟩

/-! ## The form of a reference -/

theorem value_of_index_eq (h : other.index = ref.index) :
    other.value source = ref.value source := by
  simp only [value, h]

theorem type_of_index_eq (h : other.index = ref.index) : other.type source = ref.type source := by
  simp only [type, h]

/-! ## Value and type -/

/-- **Value and type of a reference agree**, whatever the source holds. A loaded value has the type
of the reference. Where there is no type, there is no value for the same cause: no constant stands
at the index, or one that cannot be loaded. Where there is a type and no value, the constant is a
text object or a class, and the text that it refers to is lacking. The form of the reference plays
no part. -/
theorem value_agrees_with_type (source : ConstantSource) (ref : ConstantRef) :
    (∀ loaded, ref.value source = .ok loaded →
      ∃ type, ref.type source = .ok type ∧ loaded.HasType type) ∧
    (∀ e, ref.type source = .error e → ref.value source = .error e) ∧
    (∀ e, ref.type source = .error e ↔
      (source.constantAt ref.index = none ∧ e = .missing ref.index) ∨
        ∃ constant, source.constantAt ref.index = some constant ∧ ¬constant.tag.IsLoadable ∧
          e = .notLoadable ref.index constant.tag) ∧
    (∀ e, (∃ type, ref.type source = .ok type) ∧ ref.value source = .error e ↔
      ∃ constant textIndex, source.constantAt ref.index = some constant ∧
        constant.RefersTo textIndex ∧ source.LacksText textIndex e) ∧
    ∀ other : ConstantRef, other.index = ref.index →
      other.value source = ref.value source ∧ other.type source = ref.type source := by
  have hresolves := ref.resolves source
  refine ⟨?_, ?_, fun _ => type_eq_error_iff, fun _ => type_without_value_iff, ?_⟩
  · intro loaded hvalue
    rw [hvalue] at hresolves
    generalize ref.type source = outcome at hresolves ⊢
    cases hresolves with
    | loaded htype => exact ⟨_, rfl, htype⟩
  · intro e htype
    rw [htype] at hresolves
    generalize ref.value source = outcome at hresolves ⊢
    cases hresolves with
    | missing _ => rfl
    | notLoadable _ _ => rfl
  · intro other hindex
    exact ⟨value_of_index_eq hindex, type_of_index_eq hindex⟩

/-- A source with a class at index 0, a text object whose text is missing, and a class that refers
to this text object in place of a text. -/
def sparseSource : ConstantSource where
  constantAt index :=
    if index = 0 then some (.classRef 2)
    else if index = 1 then some (.string 900)
    else if index = 2 then some (.utf8 "a/b")
    else if index = 3 then some (.classRef 1)
    else if index = 4 then some (.long 5)
    else none

theorem value_agrees_with_type_sparse :
    ((short 0).value sparseSource = .ok (.classObject (.ofText "a/b")) ∧
      ∃ type, (short 0).type sparseSource = .ok type ∧
        LoadedValue.HasType (.classObject (.ofText "a/b")) type) ∧
    ((short 4).type sparseSource = .error (.notLoadable 4 .long) ∧
      (short 4).value sparseSource = .error (.notLoadable 4 .long)) ∧
    ((short 1).type sparseSource = .ok .stringObject ∧
      (short 1).value sparseSource = .error (.missing 900) ∧
      ∃ constant textIndex, sparseSource.constantAt 1 = some constant ∧
        constant.RefersTo textIndex ∧ sparseSource.LacksText textIndex (.missing 900)) ∧
    (long 3).value sparseSource = (short 3).value sparseSource ∧
      (short 3).value sparseSource = .error (.wrongKind 1 .utf8 .string) := by
  have hclass : (short 0).value sparseSource = .ok (.classObject (.ofText "a/b")) := rfl
  have hlong : (short 4).type sparseSource = .error (.notLoadable 4 .long) := rfl
  have htype : (short 1).type sparseSource = .ok .stringObject := rfl
  have hvalue : (short 1).value sparseSource = .error (.missing 900) := rfl
  obtain ⟨htyped, -, -, -, -⟩ := value_agrees_with_type sparseSource (short 0)
  obtain ⟨-, hcause, -, -, -⟩ := value_agrees_with_type sparseSource (short 4)
  obtain ⟨-, -, -, hlacks, -⟩ := value_agrees_with_type sparseSource (short 1)
  obtain ⟨-, -, -, -, hform⟩ := value_agrees_with_type sparseSource (short 3)
  refine ⟨⟨hclass, htyped _ hclass⟩, ⟨hlong, hcause _ hlong⟩, ⟨htype, hvalue, ?_⟩, ?_, rfl⟩
  · exact (hlacks _).mp ⟨⟨_, htype⟩, hvalue⟩
  · exact (hform (long 3) rfl).1

end ConstantRef

end Bytecode
