/-!
# Replacing a character

## Main definitions

* `Text.replace old new`: a text with `new` at every place of `old`

## Main results

* `Text.not_mem_replace`: the replaced character is gone
* `Text.replace_of_not_mem`, `Text.replace_replace`: where nothing is replaced, and taking a
  replacement back
* `Text.replace_replace_eq`: replacing to and fro
-/

namespace Bytecode.Text

/-- **A text with one character replaced** at each of its places. -/
def replace (old new : Char) (text : String) : String :=
  String.ofList (text.toList.map fun c => if c = old then new else c)

@[simp] theorem toList_replace (old new : Char) (text : String) :
    (replace old new text).toList = text.toList.map fun c => if c = old then new else c := by
  simp [replace]

theorem not_mem_replace {old new : Char} (h : new ≠ old) (text : String) :
    old ∉ (replace old new text).toList := by
  simp only [toList_replace, List.mem_map, not_exists, not_and]
  intro c _
  split
  · exact h
  · assumption

theorem replace_of_not_mem {old new : Char} {text : String} (h : old ∉ text.toList) :
    replace old new text = text := by
  have hmap : (text.toList.map fun c => if c = old then new else c) = text.toList := by
    conv => rhs; rw [← List.map_id text.toList]
    apply List.map_congr_left
    intro c hc
    simp only [id_eq, ite_eq_right_iff]
    rintro rfl
    exact absurd hc h
  rw [replace, hmap, String.ofList_toList]

/-- **Two replacements to and fro** are the second one alone. -/
theorem replace_replace_eq (a b : Char) (text : String) :
    replace b a (replace a b text) = replace b a text := by
  have hmap : ((text.toList.map fun c => if c = a then b else c).map
      fun c => if c = b then a else c) = text.toList.map fun c => if c = b then a else c := by
    rw [List.map_map]
    apply List.map_congr_left
    intro c _
    by_cases hca : c = a
    · simp [hca]
    · simp [hca]
  rw [replace, toList_replace, hmap, replace]

/-- **A replacement is taken back** where the new character did not occur before. -/
theorem replace_replace {a b : Char} {text : String} (h : b ∉ text.toList) :
    replace b a (replace a b text) = text := by
  rw [replace_replace_eq, replace_of_not_mem h]

end Bytecode.Text
