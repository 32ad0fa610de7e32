import Bytecode.Hex.Dump
import Mathlib.Data.List.Induction

/-!
# The lines of a dump

A dump grows by three characters with each byte, and every sixteenth byte ends a line. So the bytes
before a byte tell where its digits stand: in which line, and how far behind the start of it.

## Main definitions

* `Text.column`: how many characters stand behind the last line feed of a text
* `Hex.SpellsUpper`: two characters are the upper-case digits of a byte

## Main results

* `Hex.spellsUpper_upperPair`: the two characters written for a byte are its upper-case digits
* `Hex.dump_append_singleton`: the dump of one more byte
* `Hex.dump_eq_append`: the digits of a byte stand behind the dump of the bytes before it
* `Hex.count_newline_dump`, `Hex.column_dump`: the lines that a dump has filled, and how far it has
  come in the next one
-/

namespace Bytecode

/-! ## Columns -/

namespace Text

/-- **The column** that a text has come to: the number of characters behind its last line feed. -/
def column (text : List Char) : Nat := (text.reverse.takeWhile (· ≠ '\n')).length

@[simp] theorem column_nil : column [] = 0 := rfl

@[simp] theorem column_append_newline (text : List Char) : column (text ++ ['\n']) = 0 := by
  simp [column]

theorem column_append {run : List Char} (h : '\n' ∉ run) (text : List Char) :
    column (text ++ run) = column text + run.length := by
  have hall : ∀ c ∈ run.reverse, decide (c ≠ '\n') = true := by
    intro c hc
    rw [decide_eq_true_eq]
    rintro rfl
    exact h (List.mem_reverse.mp hc)
  rw [column, List.reverse_append, List.takeWhile_append_of_pos hall, List.length_append,
    List.length_reverse, Nat.add_comm, column]

theorem column_of_not_mem {text : List Char} (h : '\n' ∉ text) : column text = text.length := by
  have hcolumn := column_append h []
  rw [List.nil_append, column_nil, Nat.zero_add] at hcolumn
  exact hcolumn

/-- What stands before the last line feed plays no part. -/
theorem column_append_newline_append (text rest : List Char) :
    column (text ++ '\n' :: rest) = column rest := by
  rw [column, List.reverse_append, List.reverse_cons, List.append_assoc, List.singleton_append,
    List.takeWhile_append, column]
  split
  · next hall => rw [hall, List.takeWhile_cons_of_neg (by simp), List.append_nil]
  · rfl

end Text

namespace Hex

/-! ## The digits of a dump -/

theorem upperDigit_ne {c : Char} (h : digitValue? c = none) (value : Fin 16) :
    upperDigit value ≠ c := by
  rintro rfl
  rw [digitValue?_upperDigit] at h
  cases h

theorem ne_of_mem_upperPair {c : Char} {byte : UInt8} (h : c ∈ upperPair byte) :
    c ≠ ' ' ∧ c ≠ '\n' := by
  simp only [upperPair, List.mem_cons, List.not_mem_nil, or_false] at h
  rcases h with rfl | rfl
  · exact ⟨upperDigit_ne rfl _, upperDigit_ne rfl _⟩
  · exact ⟨upperDigit_ne rfl _, upperDigit_ne rfl _⟩

/-- **The upper-case digits**, each at the place of its value. -/
def upperDigits : List Char :=
  ['0', '1', '2', '3', '4', '5', '6', '7', '8', '9', 'A', 'B', 'C', 'D', 'E', 'F']

/-- **Characters spell a byte in upper case**: they are the digits that stand at the places of its
two halves, and they are read as these halves. -/
structure SpellsUpper (text : List Char) (byte : UInt8) : Prop where
  digits_eq : text.map some = [upperDigits[byte.toNat / 16]?, upperDigits[byte.toNat % 16]?]
  values_eq : text.map digitValue? = [some (highHalf byte), some (lowHalf byte)]
  upper : ∀ c ∈ text, c.isDigit = true ∨ c.isUpper = true

theorem getElem?_upperDigits (value : Fin 16) :
    upperDigits[value.val]? = some (upperDigit value) := by
  decide +revert

theorem isDigit_or_isUpper_upperDigit (value : Fin 16) :
    (upperDigit value).isDigit = true ∨ (upperDigit value).isUpper = true := by
  decide +revert

/-- **The two characters written for a byte** spell it in upper case. -/
theorem spellsUpper_upperPair (byte : UInt8) : SpellsUpper (upperPair byte) byte where
  digits_eq := by
    have hhigh := getElem?_upperDigits (highHalf byte)
    have hlow := getElem?_upperDigits (lowHalf byte)
    rw [highHalf] at hhigh
    rw [lowHalf] at hlow
    rw [hhigh, hlow]
    rfl
  values_eq := by
    simp only [upperPair, List.map_cons, List.map_nil, digitValue?_upperDigit]
  upper := by
    intro c hc
    simp only [upperPair, List.mem_cons, List.not_mem_nil, or_false] at hc
    rcases hc with rfl | rfl
    · exact isDigit_or_isUpper_upperDigit _
    · exact isDigit_or_isUpper_upperDigit _

theorem newline_not_mem_upperPair (byte : UInt8) : '\n' ∉ upperPair byte :=
  fun h => (ne_of_mem_upperPair h).2 rfl

/-! ## Byte after byte -/

theorem dump_append_singleton (bytes : List UInt8) (byte : UInt8) :
    dump (bytes ++ [byte]) = dump bytes ++ (upperPair byte ++ [dumpSeparator bytes.length]) := by
  simp [dump, List.zipIdx_append]

theorem dump_append (bytes rest : List UInt8) :
    ∃ run, dump (bytes ++ rest) = dump bytes ++ run := by
  rw [dump, List.zipIdx_append, List.flatMap_append]
  exact ⟨_, rfl⟩

/-- **The digits of a byte** stand behind the dump of the bytes before it. -/
theorem dump_eq_append {bytes : List UInt8} {place : Nat} {byte : UInt8}
    (h : bytes[place]? = some byte) :
    ∃ run, dump bytes = dump (bytes.take place) ++ (upperPair byte ++ run) := by
  obtain ⟨hplace, hbyte⟩ := List.getElem?_eq_some_iff.mp h
  obtain ⟨run, hrun⟩ := dump_append (bytes.take place ++ [byte]) (bytes.drop (place + 1))
  have hbytes : bytes.take place ++ [byte] ++ bytes.drop (place + 1) = bytes := by
    rw [← hbyte, List.take_append_getElem, List.take_append_drop]
  rw [hbytes, dump_append_singleton, List.append_assoc, List.append_assoc] at hrun
  exact ⟨_, hrun⟩

/-- **Sixteen bytes fill a line**: a line feed stands behind every sixteenth. -/
theorem count_newline_dump (bytes : List UInt8) :
    (dump bytes).count '\n' = bytes.length / 16 := by
  induction bytes using List.reverseRecOn with
  | nil => rfl
  | append_singleton bytes byte ih =>
    have hpair := List.count_eq_zero.mpr (newline_not_mem_upperPair byte)
    rw [dump_append_singleton, List.count_append, List.count_append, ih, hpair,
      List.length_append, List.length_singleton, dumpSeparator]
    split
    · rw [List.count_singleton_self]
      omega
    · rw [List.count_singleton]
      simp only [Char.reduceBEq, Bool.false_eq_true, if_false]
      omega

/-- **The bytes of the last line** take three columns each. -/
theorem column_dump (bytes : List UInt8) :
    Text.column (dump bytes) = 3 * (bytes.length % 16) := by
  induction bytes using List.reverseRecOn with
  | nil => rfl
  | append_singleton bytes byte ih =>
    rw [dump_append_singleton, List.length_append, List.length_singleton, dumpSeparator]
    split
    · rw [← List.append_assoc, Text.column_append_newline]
      omega
    · have hrun : '\n' ∉ upperPair byte ++ [' '] := by
        simp [newline_not_mem_upperPair]
      rw [Text.column_append hrun, ih]
      simp only [upperPair, List.length_append, List.length_cons, List.length_nil]
      omega

end Hex

end Bytecode
