import Bytecode.CommandLine.Run
import Mathlib.Data.List.Basic

/-!
# Lines of a text in the input

The input is cut into lines before anything is decoded. In UTF-8 a byte below 128 stands only for
the character with its number, so that a line feed is never part of another character: the lines of
the bytes of a text are the bytes of its lines, and each of them can be decoded.

## Main definitions

* `encoded`: a text as bytes of the input
* `LineEnd`: what stands behind a line

## Main results

* `eq_of_mem_utf8EncodeChar`: a byte below 128 stands for itself
* `inputLines_append`: behind a line feed the lines begin anew
* `inputLines_encoded_line`: a line of a text is a line of its bytes
* `exists_texts`: all lines of the bytes of a text are texts
-/

namespace Bytecode.CommandLine

/-! ## A text as bytes -/

section Encoding

/-- **A text as bytes of the input**. -/
def encoded (text : String) : List UInt8 := text.toUTF8.toList

theorem toList_loop (bytes : ByteArray) (found : List UInt8) (i : Nat) :
    ByteArray.toList.loop bytes i found = found.reverse ++ bytes.data.toList.drop i := by
  -- the induction follows the loop up to the end of the bytes
  induction i, found using ByteArray.toList.loop.induct bytes with
  | case1 i found h ih =>
    have hdrop : bytes.data.toList.drop i = bytes.get! i :: bytes.data.toList.drop (i + 1) := by
      show _ = bytes.data[i]! :: _
      rw [List.drop_eq_getElem_cons (Array.length_toList ▸ h), Array.getElem_toList,
        getElem!_pos bytes.data i h]
    rw [ByteArray.toList.loop, if_pos h, ih, hdrop, List.reverse_cons, List.append_assoc]
    rfl
  | case2 i found h =>
    have hdrop : bytes.data.toList.drop i = [] := List.drop_of_length_le (Nat.le_of_not_lt h)
    rw [ByteArray.toList.loop, if_neg h, hdrop, List.append_nil]

theorem toList_eq_data (bytes : ByteArray) : bytes.toList = bytes.data.toList := by
  rw [ByteArray.toList, toList_loop, List.drop_zero, List.reverse_nil, List.nil_append]

theorem encoded_eq_data (text : String) : encoded text = text.toByteArray.data.toList := by
  rw [encoded, toList_eq_data, String.toUTF8_eq_toByteArray]

theorem encoded_eq_flatMap (text : String) :
    encoded text = text.toList.flatMap String.utf8EncodeChar := by
  rw [encoded_eq_data, ← String.utf8Encode_toList, List.utf8Encode, List.toList_data_toByteArray]

@[simp] theorem encoded_append (text more : String) :
    encoded (text ++ more) = encoded text ++ encoded more := by
  rw [encoded_eq_data, String.toByteArray_append, ByteArray.toList_data_append, encoded_eq_data,
    encoded_eq_data]

theorem encoded_empty : encoded "" = [] := by rw [encoded_eq_flatMap]; rfl

theorem encoded_newline : encoded "\n" = [10] := by rw [encoded_eq_flatMap]; rfl

theorem encoded_returnNewline : encoded "\r\n" = [13, 10] := by rw [encoded_eq_flatMap]; rfl

theorem utf8EncodeChar_ne_nil (c : Char) : String.utf8EncodeChar c ≠ [] := by
  apply List.ne_nil_of_length_pos
  rw [String.length_utf8EncodeChar]
  exact c.utf8Size_pos

theorem encoded_ne_nil {text : String} (h : text ≠ "") : encoded text ≠ [] := by
  obtain ⟨c, rest, htext⟩ := List.exists_cons_of_ne_nil (String.toList_eq_nil_iff.not.mpr h)
  rw [encoded_eq_flatMap, htext, List.flatMap_cons]
  exact List.append_ne_nil_of_left_ne_nil (utf8EncodeChar_ne_nil c) _

/-- The bytes of a text are decoded to it. -/
theorem decodeLine?_encoded (text : String) : decodeLine? (encoded text) = some text := by
  rw [decodeLine?, encoded_eq_data, String.fromUTF8?]
  exact dif_pos text.isValidUTF8

/-- **A byte below 128 stands for itself**: among the bytes of a character is only the one with its
number. -/
theorem eq_of_mem_utf8EncodeChar {c : Char} {byte : UInt8} (h : byte ∈ String.utf8EncodeChar c)
    (hlow : byte.toNat < 128) : c.toNat = byte.toNat := by
  rw [String.utf8EncodeChar.eq_1, Char.toNat_val] at h
  split at h
  · obtain rfl := List.mem_singleton.mp h
    rw [UInt8.toNat_ofNat']
    omega
  · -- every byte of a longer form is 128 or more
    exfalso
    split at h
    · simp only [List.mem_cons, List.not_mem_nil, or_false, ← UInt8.toNat_inj,
        UInt8.toNat_ofNat'] at h
      omega
    split at h
    all_goals
      simp only [List.mem_cons, List.not_mem_nil, or_false, ← UInt8.toNat_inj,
        UInt8.toNat_ofNat'] at h
      omega

theorem newline_not_mem_encoded {text : String} (h : '\n' ∉ text.toList) : 10 ∉ encoded text := by
  intro hbyte
  rw [encoded_eq_flatMap] at hbyte
  obtain ⟨c, hc, hbyte⟩ := List.mem_flatMap.mp hbyte
  have hnewline : c = '\n' := Char.toNat_inj.mp (eq_of_mem_utf8EncodeChar hbyte (by decide))
  rw [hnewline] at hc
  exact h hc

theorem getLast?_encoded_ne {text : String} (h : text.toList.getLast? ≠ some '\r') :
    (encoded text).getLast? ≠ some 13 := by
  intro hlast
  rw [encoded_eq_flatMap] at hlast
  rcases List.eq_nil_or_concat' text.toList with hnil | ⟨front, c, hfront⟩
  · rw [hnil] at hlast
    cases hlast
  · -- the last byte is one of those of the last character
    rw [hfront, List.flatMap_append, List.flatMap_singleton,
      List.getLast?_append_of_ne_nil _ (utf8EncodeChar_ne_nil c)] at hlast
    have hbyte := eq_of_mem_utf8EncodeChar (List.mem_of_getLast? hlast) (by decide)
    apply h
    rw [hfront, List.getLast?_concat]
    exact congrArg some (Char.toNat_inj.mp hbyte)

end Encoding

/-! ## Lines of bytes -/

section Lines

variable {line : List UInt8}

theorem linesFrom_eq_append (found : List (List UInt8)) (current bytes : List UInt8) :
    linesFrom found current bytes = found.reverse ++ linesFrom [] current bytes := by
  induction bytes generalizing found current with
  | nil =>
    rw [linesFrom, linesFrom]
    split
    · rw [List.reverse_nil, List.append_nil]
    · rw [List.reverse_cons, List.reverse_singleton]
  | cons byte rest ih =>
    rw [linesFrom, linesFrom]
    split
    · rw [ih, ih [_], List.reverse_cons, List.append_assoc, List.reverse_singleton]
    · exact ih found (byte :: current)

/-- Bytes without a line feed are kept for the line that is open. -/
theorem linesFrom_append (h : 10 ∉ line) (current rest : List UInt8) :
    linesFrom [] current (line ++ rest) = linesFrom [] (line.reverse ++ current) rest := by
  induction line generalizing current with
  | nil => rfl
  | cons byte line ih =>
    rw [List.mem_cons, not_or] at h
    rw [List.cons_append, linesFrom, if_neg (Ne.symm h.1), ih h.2, List.reverse_cons,
      List.append_assoc]
    rfl

/-- **A line feed ends a line**, and takes a carriage return with it. -/
theorem inputLines_feed (h : 10 ∉ line) (rest : List UInt8) :
    inputLines (line ++ 10 :: rest) = (dropReturn line.reverse).reverse :: inputLines rest := by
  rw [inputLines, linesFrom_append h, List.append_nil, linesFrom, if_pos rfl, linesFrom_eq_append]
  rfl

/-- The last line may lack its line feed. -/
theorem inputLines_open (h : 10 ∉ line) (hline : line ≠ []) : inputLines line = [line] := by
  have hlines := linesFrom_append h [] []
  rw [List.append_nil, List.append_nil] at hlines
  rw [inputLines, hlines, linesFrom, List.reverse_reverse]
  exact if_neg (by simpa using hline)

theorem dropReturn_of_getLast?_ne (h : line.getLast? ≠ some 13) :
    dropReturn line.reverse = line.reverse := by
  rw [← List.head?_reverse] at h
  cases hreverse : line.reverse with
  | nil => rfl
  | cons byte rest =>
    rw [hreverse] at h
    unfold dropReturn
    split
    next heq =>
      obtain ⟨rfl, -⟩ := List.cons.inj heq
      exact absurd rfl h
    next => rfl

theorem linesFrom_append_feed (found : List (List UInt8)) (current front rest : List UInt8) :
    linesFrom found current (front ++ 10 :: rest) =
      linesFrom found current (front ++ [10]) ++ inputLines rest := by
  induction front generalizing found current with
  | nil =>
    rw [List.nil_append, List.nil_append, linesFrom, if_pos rfl, linesFrom_eq_append, linesFrom,
      if_pos rfl]
    rfl
  | cons byte front ih =>
    rw [List.cons_append, List.cons_append, linesFrom, linesFrom]
    split
    · exact ih _ []
    · exact ih found (byte :: current)

/-- **Behind a line feed the lines begin anew**. -/
theorem inputLines_append (front rest : List UInt8) :
    inputLines (front ++ 10 :: rest) = inputLines (front ++ [10]) ++ inputLines rest :=
  linesFrom_append_feed [] [] front rest

end Lines

/-! ## Lines of a text -/

section Texts

/-- **What stands behind a line**, in front of the rest of the text: a line feed, or a carriage
return and a line feed. The last line of a text may lack both. -/
inductive LineEnd (line : String) : String → String → Prop
  | feed (rest : String) (h : line.toList.getLast? ≠ some '\r') : LineEnd line "\n" rest
  | returnFeed (rest : String) : LineEnd line "\r\n" rest
  | missing (h : line ≠ "") : LineEnd line "" ""

/-- **A line of a text is a line of its bytes**. -/
theorem inputLines_encoded_line {line ending rest : String} (h : '\n' ∉ line.toList)
    (hend : LineEnd line ending rest) :
    inputLines (encoded (line ++ (ending ++ rest))) =
      encoded line :: inputLines (encoded rest) := by
  have hline := newline_not_mem_encoded h
  rw [encoded_append, encoded_append]
  cases hend with
  | feed rest hreturn =>
    rw [encoded_newline, List.singleton_append, inputLines_feed hline,
      dropReturn_of_getLast?_ne (getLast?_encoded_ne hreturn), List.reverse_reverse]
  | returnFeed rest =>
    have hreturn : 10 ∉ encoded line ++ [13] := by simpa using hline
    have hcut := inputLines_feed hreturn (encoded rest)
    rw [List.append_assoc, List.reverse_append, List.reverse_singleton] at hcut
    rw [encoded_returnNewline]
    exact hcut.trans (congrArg (· :: _) (List.reverse_reverse _))
  | missing hne =>
    rw [encoded_empty, List.append_nil, List.append_nil,
      inputLines_open hline (encoded_ne_nil hne)]
    rfl

/-- **A text that ends its lines** can be cut off: what follows it has lines of its own. -/
theorem inputLines_encoded_append {before : String}
    (h : before = "" ∨ ∃ front, before = front ++ "\n") (after : String) :
    inputLines (encoded (before ++ after)) =
      inputLines (encoded before) ++ inputLines (encoded after) := by
  rcases h with rfl | ⟨front, rfl⟩
  · rw [String.empty_append, encoded_empty]
    rfl
  · have hcut := inputLines_append (encoded front) (encoded after)
    rw [encoded_append, encoded_append, encoded_newline, List.append_assoc]
    exact hcut

/-- **Every text opens with a line**, unless it is empty. -/
theorem exists_line {text : String} (h : text ≠ "") :
    ∃ line ending rest, text = line ++ (ending ++ rest) ∧ '\n' ∉ line.toList ∧
      LineEnd line ending rest ∧ rest.length < text.length := by
  by_cases hnewline : '\n' ∈ text.toList
  · obtain ⟨front, behind, htext, hfront⟩ := List.eq_append_cons_of_mem hnewline
    have hlength : (String.ofList behind).length < text.length := by
      rw [String.length_ofList, ← String.length_toList, htext, List.length_append, List.length_cons]
      omega
    by_cases hreturn : front.getLast? = some '\r'
    · obtain ⟨line, rfl⟩ := List.getLast?_eq_some_iff.mp hreturn
      refine ⟨.ofList line, "\r\n", .ofList behind, ?_, ?_, .returnFeed _, hlength⟩
      · apply String.toList_inj.mp
        simp [htext]
      · rw [String.toList_ofList]
        exact fun hline => hfront (List.mem_append_left _ hline)
    · refine ⟨.ofList front, "\n", .ofList behind, ?_, ?_, .feed _ ?_, hlength⟩
      · apply String.toList_inj.mp
        simp [htext]
      · rwa [String.toList_ofList]
      · rwa [String.toList_ofList]
  · exact ⟨text, "", "", by simp, hnewline, .missing h,
      Nat.pos_of_ne_zero fun hzero => h (String.length_eq_zero_iff.mp hzero)⟩

/-- **All lines of the bytes of a text are texts**. -/
theorem exists_texts (text : String) :
    ∃ texts : List String, inputLines (encoded text) = texts.map encoded := by
  -- by induction on the length, line by line
  induction hlength : text.length using Nat.strongRecOn generalizing text with
  | _ length ih =>
    by_cases h : text = ""
    · subst h
      exact ⟨[], by rw [encoded_empty]; rfl⟩
    · obtain ⟨line, ending, rest, rfl, hline, hend, hlt⟩ := exists_line h
      obtain ⟨texts, htexts⟩ := ih rest.length (hlength ▸ hlt) rest rfl
      exact ⟨line :: texts, by rw [inputLines_encoded_line hline hend, htexts, List.map_cons]⟩

end Texts

end Bytecode.CommandLine
