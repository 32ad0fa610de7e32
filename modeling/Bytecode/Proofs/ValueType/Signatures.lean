import Bytecode.ValueType
import Mathlib.Data.List.Forall2

/-!
# Signatures tell types apart

The name of a class goes through two replacements in opposite directions: slashes become dots when
a type is made of a text, and dots become slashes when its signature is written. Neither keeps
different texts apart. But the first leaves no slash in a name, so nothing is lost by the second,
and a signature can be read back. What is read back is the type; hence no two types share a
signature.

## Main definitions

* `ValueType.ofSignature?`: the type that a signature is of
* `ClassName.ReadAlike`: characters that make no difference to the class named

## Main results

* `ValueType.ofSignature?_signature`: a signature is read back as its type
* `ClassName.ofText_eq_iff_forall₂`: which texts name the same class
* `ClassName.signature_eq_iff`: what stands in the signature of a class
* `ValueType.signature_identifies_type`: signatures, names and types
-/

namespace Bytecode

/-! ## Texts that name the same class -/

namespace Text

variable {old new : Char}

/-- **Two characters become the same** by a replacement if they were, or if both become the new
one. -/
theorem replaced_eq_replaced_iff (c d : Char) :
    ((if c = old then new else c) = if d = old then new else d) ↔
      c = d ∨ (c = old ∨ c = new) ∧ (d = old ∨ d = new) := by
  -- the old character becomes the new one, and any other stays as it is
  by_cases hc : c = old
  · by_cases hd : d = old
    · simp [hc, hd]
    · simp only [hc, hd, if_true, if_false, true_or, true_and, false_or, eq_comm (a := new)]
      constructor
      · exact Or.inr
      · rintro (rfl | h)
        · exact absurd rfl hd
        · exact h
  · by_cases hd : d = old
    · simp only [hc, hd, if_true, if_false, true_or, and_true, false_or]
    · simp only [hc, hd, if_false, false_or]
      constructor
      · exact Or.inl
      · rintro (h | ⟨rfl, h⟩)
        · exact h
        · exact h.symm

theorem replace_eq_replace_iff {a b : String} :
    replace old new a = replace old new b ↔
      List.Forall₂ (fun c d => c = d ∨ (c = old ∨ c = new) ∧ (d = old ∨ d = new))
        a.toList b.toList := by
  rw [replace, replace, String.ofList_inj, ← List.forall₂_eq_eq_eq, List.forall₂_map_left_iff,
    List.forall₂_map_right_iff]
  simp only [replaced_eq_replaced_iff]

end Text

namespace ClassName

/-- **Two characters are read alike** in the name of a class: they are the same one, or each is one
of the two that join the parts of a name. -/
def ReadAlike (c d : Char) : Prop :=
  c = d ∨ (c = '/' ∨ c = '.') ∧ (d = '/' ∨ d = '.')

theorem ofText_eq_iff {a b : String} :
    ofText a = ofText b ↔ Text.replace '/' '.' a = Text.replace '/' '.' b := by
  rw [ofText, ofText, mk.injEq]

/-- **Two texts name the same class** exactly if they are read alike, character by character. -/
theorem ofText_eq_iff_forall₂ {a b : String} :
    ofText a = ofText b ↔ List.Forall₂ ReadAlike a.toList b.toList := by
  rw [ofText_eq_iff, Text.replace_eq_replace_iff]
  rfl

/-- **The signature of a class** holds the form of its name with slashes, and no other text. -/
theorem signature_eq_iff {name : ClassName} {text : String} :
    name.signature = "L" ++ text ++ ";" ↔ text = name.internal := by
  rw [signature, String.append_left_inj, String.append_right_inj, eq_comm]

end ClassName

/-! ## Reading signatures -/

namespace ValueType

/-- **The type that a signature is of**, if it is one. -/
def ofSignature? (signature : String) : Option ValueType :=
  match signature.toList with
  | ['Z'] => some boolean
  | ['B'] => some byte
  | ['C'] => some char
  | ['S'] => some short
  | ['I'] => some int
  | ['J'] => some long
  | ['F'] => some float
  | ['D'] => some double
  | 'L' :: rest =>
    if rest.getLast? = some ';' then some (object (.ofText (String.ofList rest.dropLast))) else none
  | _ => none

/-- **A signature is read back** as its type. -/
@[simp] theorem ofSignature?_signature (type : ValueType) :
    ofSignature? type.signature = some type := by
  cases type with
  | object name =>
    have hchars : (object name).signature.toList = 'L' :: (name.internal.toList ++ [';']) := by
      simp [signature, ClassName.signature]
    simp only [ofSignature?, hchars, List.getLast?_concat, List.dropLast_concat, if_true,
      String.ofList_toList, ClassName.ofText_internal]
  | _ => rfl

/-- **No two types share a signature**. -/
theorem signature_injective {a b : ValueType} (h : a.signature = b.signature) : a = b := by
  have hread := congrArg ofSignature? h
  rw [ofSignature?_signature, ofSignature?_signature] at hread
  exact Option.some.inj hread

/-- **A signature identifies a type**, and a name identifies a class up to the characters that join
its parts. The signature of a class has one text between its first and its last character, and this
text names the class. -/
theorem signature_identifies_type :
    (∀ a b : ValueType, a.signature = b.signature ↔ a = b) ∧
    (∀ a b : String, (ClassName.ofText a = ClassName.ofText b ↔
        Text.replace '/' '.' a = Text.replace '/' '.' b) ∧
      (ClassName.ofText a = ClassName.ofText b ↔
        List.Forall₂ ClassName.ReadAlike a.toList b.toList)) ∧
    ∀ name : ClassName, ∃ between,
      (∀ text, (object name).signature = "L" ++ text ++ ";" ↔ text = between) ∧
        ClassName.ofText between = name := by
  refine ⟨fun a b => ⟨signature_injective, ?_⟩, fun a b => ⟨?_, ?_⟩, fun name => ?_⟩
  · rintro rfl
    rfl
  · exact ClassName.ofText_eq_iff
  · exact ClassName.ofText_eq_iff_forall₂
  · refine ⟨name.internal, fun text => ClassName.signature_eq_iff, ?_⟩
    exact name.ofText_internal

end ValueType

end Bytecode
