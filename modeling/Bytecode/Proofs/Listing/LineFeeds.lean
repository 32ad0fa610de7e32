import Bytecode.Listing
import Mathlib.Data.List.Basic

/-!
# Where no line feed stands

Every part of a listing is made of digits, fixed words and quoted text. Digits and words hold no
line feed, and in quoted text a line feed is escaped, whatever the text is. Only the name of a class
is written as it is.

## Main definitions

* `LoadedValue.class?`: the class, if a class is loaded

## Main results

* `Text.newline_not_mem_toDigits`, `Text.newline_not_mem_quoteString`: numerals and quoted text
* `FloatFormat.newline_not_mem_write`: numbers with a point
* `Instruction.newline_not_mem_text`: the texts of instructions
* `LoadedValue.newline_not_mem_text`, `ResolveError.newline_not_mem_message`: the texts of loaded
  values, apart from classes, and the causes why nothing is loaded
-/

namespace Bytecode

/-! ## Numerals and quoted text -/

namespace Text

@[simp] theorem newline_not_mem_toDigits {base : Nat} (hbase : 1 < base) (n : Nat) :
    '\n' ∉ Nat.toDigits base n := by
  induction n using Nat.strongRecOn with
  | ind n ih =>
    rw [Nat.toDigits_eq_if hbase]
    by_cases hn : n < base
    · rw [if_pos hn, List.mem_singleton]
      exact (Nat.digitChar_ne '\n' rfl).symm
    · have hsmaller : n / base < n := Nat.div_lt_self (by omega) hbase
      rw [if_neg hn, List.mem_append, List.mem_singleton, not_or]
      exact ⟨ih _ hsmaller, (Nat.digitChar_ne '\n' rfl).symm⟩

@[simp] theorem newline_not_mem_repr_int (n : Int) : '\n' ∉ n.repr.toList := by
  rw [Int.repr_eq_if]
  split
  · simp
  · simp

/-- **An escaped character** is no line feed: that one is written as two other characters. -/
theorem newline_not_mem_escape {quote : Char} (hquote : quote ≠ '\n') (c : Char) :
    '\n' ∉ escape quote c := by
  by_cases hnewline : c = '\n'
  · subst hnewline
    simp [escape]
  · unfold escape
    split_ifs
    all_goals simp [hquote.symm, Ne.symm hnewline, Hex.lowerNumeral]

@[simp] theorem newline_not_mem_quoteString (text : String) :
    '\n' ∉ (quoteString text).toList := by
  have hbody : '\n' ∉ text.toList.flatMap (escape '"') := by
    rw [List.mem_flatMap]
    rintro ⟨c, -, hc⟩
    exact newline_not_mem_escape (by decide) c hc
  simp [quoteString, hbody]

/-- Spaces before a text add no line feed. -/
theorem newline_mem_alignRight_iff (width : Nat) (text : String) :
    '\n' ∈ (alignRight width text).toList ↔ '\n' ∈ text.toList := by
  simp [alignRight, List.mem_replicate]

end Text

/-! ## Numbers with a point -/

namespace Decimal

theorem newline_not_mem_writePositional (d : Decimal) : '\n' ∉ d.writePositional := by
  have hdigits : '\n' ∉ Nat.toDigits 10 d.digits := Text.newline_not_mem_toDigits (by decide) _
  unfold writePositional
  simp only
  split_ifs with hwhole hplaces
  · simp [List.mem_replicate]
  · have htake (n : Nat) : '\n' ∉ (Nat.toDigits 10 d.digits).take n :=
      fun h => hdigits (List.mem_of_mem_take h)
    have hdrop (n : Nat) : '\n' ∉ (Nat.toDigits 10 d.digits).drop n :=
      fun h => hdigits (List.mem_of_mem_drop h)
    simp [htake, hdrop]
  · simp [List.mem_replicate]

theorem newline_not_mem_writeScientific (leading : Int) (d : Decimal) :
    '\n' ∉ d.writeScientific leading := by
  have hdigits : '\n' ∉ Nat.toDigits 10 d.digits := Text.newline_not_mem_toDigits (by decide) _
  unfold writeScientific
  split
  · next first second rest hparts =>
    rw [hparts] at hdigits
    simpa using hdigits
  · simp

@[simp] theorem newline_not_mem_write (layout : Layout) (d : Decimal) :
    '\n' ∉ (d.write layout).toList := by
  unfold write
  simp only
  split_ifs
  · simpa using d.newline_not_mem_writePositional
  · simpa using d.newline_not_mem_writeScientific _

end Decimal

@[simp] theorem FloatFormat.newline_not_mem_write (format : FloatFormat) (layout : Decimal.Layout)
    (bits : Nat) : '\n' ∉ (format.write layout bits).toList := by
  unfold FloatFormat.write
  simp only
  split_ifs <;> simp

/-! ## Instructions -/

theorem Opcode.newline_not_mem_mnemonic (opcode : Opcode) : '\n' ∉ opcode.mnemonic.toList := by
  cases opcode <;> decide

namespace Instruction

theorem newline_not_mem_headText (verbose : Bool) (instruction : Instruction) :
    '\n' ∉ (instruction.headText verbose).toList := by
  have hmnemonic := instruction.opcode.newline_not_mem_mnemonic
  unfold headText
  cases verbose with
  | false => exact hmnemonic
  | true => simp [hmnemonic, toString]

theorem newline_not_mem_operandText (instruction : Instruction) :
    '\n' ∉ instruction.operandText.toList := by
  rcases instruction with _ | _ | _ | (_ | _ | _) <;> simp [operandText, toString]

/-- **The text of an instruction** stands on one line. -/
theorem newline_not_mem_text (verbose : Bool) (instruction : Instruction) :
    '\n' ∉ (instruction.text verbose).toList := by
  rw [text, String.toList_append, List.mem_append, not_or]
  exact ⟨newline_not_mem_headText verbose instruction, newline_not_mem_operandText instruction⟩

end Instruction

/-! ## Loaded values and causes -/

/-- The class, if a class is loaded. -/
def LoadedValue.class? : LoadedValue → Option ClassName
  | classObject name => some name
  | _ => none

/-- **The text of a loaded value** stands on one line, unless it is the name of a class. -/
theorem LoadedValue.newline_not_mem_text {value : LoadedValue} (h : value.class? = none) :
    '\n' ∉ value.text.toList := by
  cases value with
  | int value => simp [text]
  | float bits => simp [text]
  | string text => simp [LoadedValue.text]
  | classObject name => cases h

theorem Tag.newline_not_mem_name (tag : Tag) : '\n' ∉ tag.name.toList := by
  cases tag <;> decide

/-- **The wording of a cause** stands on one line. -/
theorem ResolveError.newline_not_mem_message (e : ResolveError) : '\n' ∉ e.message.toList := by
  unfold ResolveError.message
  cases e with
  | missing index => simp [toString]
  | notLoadable index tag =>
    have htag := tag.newline_not_mem_name
    simp [htag, toString]
  | wrongKind index expected found =>
    have hexpected := expected.newline_not_mem_name
    have hfound := found.newline_not_mem_name
    simp [hexpected, hfound, toString]

end Bytecode
