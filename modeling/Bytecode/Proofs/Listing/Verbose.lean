import Bytecode.Proofs.Code.Decoding
import Bytecode.Proofs.Listing.Lines
import Mathlib.Data.List.Basic
import Mathlib.Data.List.Nodup

/-!
# What a verbose listing tells

A listing names the opcode and the operand of each instruction, and a verbose one also its length.
That is enough to tell the form of a slot or an index: two forms of one slot have the same name only
if they differ in length. So the text of an instruction determines it, and since the instructions
before a line determine the offset that opens it, a listing determines its code line by line.

## Main definitions

* `Instruction.operandValue?`: the number that is written as the operand
* `Instruction.operandOfValue`: the bytes of such a number

## Main results

* `Text.integer_eq_of_toString`: a number is read back from its numeral
* `Instruction.eq_of_opcode`: opcode, length and written operand determine an instruction
* `Instruction.text_verbose_injective`: so does its verbose text
* `Code.layout_injective`: the lines of a layout determine its instructions
* `Code.eq_of_listing_eq`: a verbose listing without a source determines the code
-/

namespace Bytecode

/-! ## Texts that are cut, and numerals -/

/-- **A text is cut** where a character stands for the first time. -/
theorem Text.append_cons_inj {c : Char} {front front' rest rest' : List Char} (h : c ∉ front)
    (h' : c ∉ front') (heq : front ++ c :: rest = front' ++ c :: rest') :
    front = front' ∧ rest = rest' := by
  induction front generalizing front' with
  | nil =>
    cases front' with
    | nil => exact ⟨rfl, (List.cons.inj heq).2⟩
    | cons first front' =>
      obtain ⟨rfl, -⟩ := List.cons.inj heq
      exact absurd List.mem_cons_self h'
  | cons first front ih =>
    rw [List.mem_cons, not_or] at h
    cases front' with
    | nil =>
      obtain ⟨rfl, -⟩ := List.cons.inj heq
      exact absurd rfl h.1
    | cons first' front' =>
      rw [List.mem_cons, not_or] at h'
      obtain ⟨rfl, htail⟩ := List.cons.inj heq
      obtain ⟨rfl, hrest⟩ := ih h.2 h'.2 htail
      exact ⟨rfl, hrest⟩

theorem Text.not_mem_toString {c : Char} (h : c.isDigit = false) (n : Nat) :
    c ∉ (toString n).toList := by
  intro hc
  rw [Nat.toString_eq_ofList_toDigits, String.toList_ofList] at hc
  rw [Nat.isDigit_of_mem_toDigits (by decide) (by decide) hc] at h
  cases h

/-- **A numeral is read back** from its digits. -/
theorem Text.natural_eq_of_toString {m n : Nat} (h : toString m = toString n) : m = n := by
  have hdigits : Nat.toDigits 10 m = Nat.toDigits 10 n := by
    rw [Nat.toString_eq_ofList_toDigits, Nat.toString_eq_ofList_toDigits] at h
    exact String.ofList_injective h
  calc
    m = Nat.ofDigitChars 10 (Nat.toDigits 10 m) 0 := Nat.ofDigitChars_ten_toDigits.symm
    _ = Nat.ofDigitChars 10 (Nat.toDigits 10 n) 0 := by rw [hdigits]
    _ = n := Nat.ofDigitChars_ten_toDigits

/-- **A number with a sign**, too: no numeral starts with the sign. -/
theorem Text.integer_eq_of_toString {a b : Int} (h : toString a = toString b) : a = b := by
  have hsign (m n : Nat) : toString (Int.ofNat m) ≠ toString (Int.negSucc n) := by
    intro heq
    apply Text.not_mem_toString (c := '-') rfl m
    rw [show toString m = "-" ++ toString (n + 1) from heq, String.toList_append]
    exact List.mem_append_left _ List.mem_cons_self
  cases a with
  | ofNat m =>
    cases b with
    | ofNat n => rw [Text.natural_eq_of_toString h]
    | negSucc n => exact absurd h (hsign m n)
  | negSucc m =>
    cases b with
    | ofNat n => exact absurd h.symm (hsign n m)
    | negSucc n =>
      have hpred := Text.natural_eq_of_toString ((String.append_right_inj "-").mp h)
      rw [Nat.succ.inj hpred]

/-! ## Opcodes by name -/

namespace Opcode

theorem nodup_mnemonics : (all.map mnemonic).Nodup := by decide

/-- **The names of opcodes** are distinct. -/
theorem mnemonic_injective {a b : Opcode} (h : a.mnemonic = b.mnemonic) : a = b :=
  List.inj_on_of_nodup_map nodup_mnemonics (mem_all a) (mem_all b) h

theorem bracket_not_mem_mnemonic (opcode : Opcode) : '[' ∉ opcode.mnemonic.toList := by
  cases opcode <;> decide

end Opcode

namespace Instruction

/-! ## Written operands -/

section Operands

/-- The number that is written as the operand, if one is. -/
def operandValue? : Instruction → Option Int
  | iconst _ => none
  | bipush value => some value.toInt
  | ldc constant => some constant.index.toNat
  | fstore (.compact _) => none
  | fstore (.byte slot) => some slot.toNat
  | fstore (.wide slot) => some slot.toNat

/-- The bytes of such a number, one or two of them. -/
def operandOfValue (length : Nat) (value : Int) : List UInt8 :=
  if length = 1 then [UInt8.ofInt value]
  else [Word.high (UInt16.ofInt value), Word.low (UInt16.ofInt value)]

theorem ofInt_toNat_byte (byte : UInt8) : UInt8.ofInt byte.toNat = byte := by
  have hlt := byte.toNat_lt
  apply UInt8.toNat_inj.mp
  rw [UInt8.ofInt, UInt8.toNat_ofNat']
  omega

theorem ofInt_toNat_word (word : UInt16) : UInt16.ofInt word.toNat = word := by
  have hlt := word.toNat_lt
  apply UInt16.toNat_inj.mp
  rw [UInt16.ofInt, UInt16.toNat_ofNat']
  omega

theorem ofInt_toInt_signed (value : Int8) : UInt8.ofInt value.toInt = value.toUInt8 := by
  have hbits := BitVec.toNat_ofInt (n := 8) value.toInt
  rw [show BitVec.ofInt 8 value.toInt = value.toBitVec from BitVec.ofInt_toInt] at hbits
  apply UInt8.toNat_inj.mp
  rw [UInt8.ofInt, UInt8.toNat_ofNat']
  show _ = value.toBitVec.toNat
  omega

theorem operandText_eq (instruction : Instruction) :
    instruction.operandText =
      instruction.operandValue?.elim "" fun value => " " ++ toString value := by
  rcases instruction with _ | _ | _ | (_ | _ | _) <;> rfl

/-- **The bytes of an operand** are those of the number that is written for it. -/
theorem operand_eq (instruction : Instruction) :
    instruction.operand =
      instruction.operandValue?.elim [] (operandOfValue instruction.head.operandLength) := by
  rcases instruction with value | value | (index | index) | (slot | slot | slot)
  case iconst => rfl
  case bipush =>
    show _ = [UInt8.ofInt value.toInt]
    rw [ofInt_toInt_signed, operand]
  case ldc.short =>
    show _ = [UInt8.ofInt (ConstantRef.short index).index.toNat]
    rw [ConstantRef.toNat_index_short, ofInt_toNat_byte, operand]
  case ldc.long =>
    show _ = [Word.high (UInt16.ofInt index.toNat), Word.low (UInt16.ofInt index.toNat)]
    rw [ofInt_toNat_word, operand]
  case fstore.compact => rfl
  case fstore.byte =>
    show _ = [UInt8.ofInt slot.toNat]
    rw [ofInt_toNat_byte, operand]
  case fstore.wide =>
    show _ = [Word.high (UInt16.ofInt slot.toNat), Word.low (UInt16.ofInt slot.toNat)]
    rw [ofInt_toNat_word, operand]

theorem operandValue?_eq_of_text {a b : Instruction} (h : a.operandText = b.operandText) :
    a.operandValue? = b.operandValue? := by
  rw [operandText_eq, operandText_eq] at h
  cases hvalue : a.operandValue? with
  | none =>
    cases hvalue' : b.operandValue? with
    | none => rfl
    | some value' =>
      rw [hvalue, hvalue'] at h
      exact absurd (congrArg String.toList h) (by simp)
  | some value =>
    cases hvalue' : b.operandValue? with
    | none =>
      rw [hvalue, hvalue'] at h
      exact absurd (congrArg String.toList h) (by simp)
    | some value' =>
      rw [hvalue, hvalue'] at h
      rw [Text.integer_eq_of_toString ((String.append_right_inj " ").mp h)]

end Operands

/-! ## The text of an instruction -/

section Texts

theorem isMarked_eq (instruction : Instruction) :
    instruction.isMarked = decide (instruction.length = 4) := by
  rcases instruction with _ | _ | (_ | _) | (_ | _ | _) <;> rfl

/-- **An instruction is determined** by its opcode, its length and the operand as written. -/
theorem eq_of_opcode {a b : Instruction} (hopcode : a.opcode = b.opcode)
    (hlength : a.length = b.length) (htext : a.operandText = b.operandText) : a = b := by
  have hhead : a.head = b.head := by
    rw [head, head, isMarked_eq, isMarked_eq, hopcode, hlength]
  apply bytes_injective
  rw [bytes_eq_head_append, bytes_eq_head_append, operand_eq, operand_eq,
    operandValue?_eq_of_text htext, hhead]

theorem toList_text_verbose (instruction : Instruction) :
    (instruction.text true).toList =
      instruction.opcode.mnemonic.toList ++ '[' ::
        ((toString instruction.opcode.toByte.toNat).toList ++ ']' :: '(' ::
          ((toString instruction.length).toList ++ ')' :: instruction.operandText.toList)) := by
  simp [text, headText, toString]

/-- **The verbose text of an instruction** determines it: up to the bracket stands the name of the
opcode, and up to the last parenthesis the length. -/
theorem text_verbose_injective {a b : Instruction} (h : a.text true = b.text true) : a = b := by
  rw [← String.toList_inj, toList_text_verbose, toList_text_verbose] at h
  obtain ⟨hname, hbehind⟩ := Text.append_cons_inj a.opcode.bracket_not_mem_mnemonic
    b.opcode.bracket_not_mem_mnemonic h
  have hopcode : a.opcode = b.opcode := Opcode.mnemonic_injective (String.toList_inj.mp hname)
  rw [hopcode, List.append_right_inj, List.cons.injEq, List.cons.injEq] at hbehind
  obtain ⟨hlength, htext⟩ := Text.append_cons_inj (Text.not_mem_toString rfl _)
    (Text.not_mem_toString rfl _) hbehind.2.2
  exact eq_of_opcode hopcode (Text.natural_eq_of_toString (String.toList_inj.mp hlength))
    (String.toList_inj.mp htext)

end Texts

end Instruction

/-! ## The lines of a listing -/

namespace Code

section Listings

variable {options : ListingOptions}

/-- **A layout is determined by its lines**: the offset that opens a line is known from the lines
before it, and the text behind it is that of one instruction only. -/
theorem layout_injective (h : options.verbose = true) {instructions others : List Instruction}
    (offset : Nat)
    (hlines : (layout offset instructions).map (·.heading options) =
      (layout offset others).map (·.heading options)) : instructions = others := by
  induction instructions generalizing offset others with
  | nil =>
    cases others with
    | nil => rfl
    | cons other others => simp [layout] at hlines
  | cons instruction instructions ih =>
    cases others with
    | nil => simp [layout] at hlines
    | cons other others =>
      rw [layout, layout, List.map_cons, List.map_cons, List.cons.injEq] at hlines
      obtain ⟨hfirst, hrest⟩ := hlines
      rw [Entry.heading, Entry.heading, h, String.append_right_inj] at hfirst
      obtain rfl := Instruction.text_verbose_injective hfirst
      rw [ih _ hrest]

theorem note_none (entry : Entry) :
    entry.note options none = "" ∧ entry.notedClass? options none = none := by
  obtain hnote | ⟨_, _, -, hsource, -⟩ := entry.note_cases options none
  · exact hnote
  · cases hsource

/-- Without a source, the lines of a listing are offsets and texts. -/
theorem splitOn_listing_none (code : Code) :
    (code.listing options none).toList.splitOn '\n' =
      code.entries.map (fun entry => (entry.heading options).toList) ++ [[]] := by
  have hstray : ∀ entry ∈ code.entries, entry.strayLineFeeds options none = 0 := by
    intro entry _
    rw [Entry.strayLineFeeds, (note_none entry).2]
    rfl
  rw [splitOn_listing hstray]
  simp only [note_none, String.append_empty]

/-- **A verbose listing without a source determines the code**: two pieces of code with the same
listing are the same instructions at the same offsets, and have the same bytes. -/
theorem eq_of_listing_eq {code other : Code} (hcode : code.Obtainable) (hother : other.Obtainable)
    {options options' : ListingOptions} (hverbose : options.verbose = true)
    (hverbose' : options'.verbose = true)
    (h : code.listing options none = other.listing options' none) :
    code = other ∧ code.bytes = other.bytes := by
  obtain ⟨instructions, rfl⟩ := hcode.exists_eq
  obtain ⟨others, rfl⟩ := hother.exists_eq
  have hheading (entry : Entry) : entry.heading options' = entry.heading options := by
    rw [Entry.heading, Entry.heading, hverbose, hverbose']
  have hlines := congrArg (fun text => text.toList.splitOn '\n') h
  simp only [splitOn_listing_none, hheading, List.append_cancel_right_eq] at hlines
  have hheadings : (layout 0 instructions).map (·.heading options) =
      (layout 0 others).map (·.heading options) := by
    apply List.map_injective_iff.mpr fun _ _ => String.toList_inj.mp
    rw [List.map_map, List.map_map]
    exact hlines
  rw [layout_injective hverbose 0 hheadings]
  exact ⟨rfl, rfl⟩

/-- A slot that is written in the longest form, once read and once laid out, and listed with and
without looking constants up. -/
theorem eq_of_listing_eq_long_form :
    ∃ code, decode {} [0x12, 0x09, 0xC4, 0x38, 0x00, 0x02] = .ok code ∧
      code.listing ⟨true, true⟩ none =
        (ofInstructions [.ldc (.short 9), .fstore (.wide 2)]).listing ⟨true, false⟩ none ∧
      code = ofInstructions [.ldc (.short 9), .fstore (.wide 2)] := by
  have h : decode {} [0x12, 0x09, 0xC4, 0x38, 0x00, 0x02] =
      .ok (ofInstructions [.ldc (.short 9), .fstore (.wide 2)]) :=
    decode_eq_ok_iff.mpr ⟨by decide, _, fun _ _ _ => rfl, rfl, rfl⟩
  have hlisting : (ofInstructions [.ldc (.short 9), .fstore (.wide 2)]).listing ⟨true, true⟩ none =
      (ofInstructions [.ldc (.short 9), .fstore (.wide 2)]).listing ⟨true, false⟩ none := by
    decide
  exact ⟨_, h, hlisting, (eq_of_listing_eq (.decode h)
    (.ofInstructions _ fun instruction _ => instruction.obtainable) rfl rfl hlisting).1⟩

/-- A brief listing tells less: two forms of one slot look the same in it. -/
example : (ofInstructions [.fstore (.byte 2)]).listing {} none =
    (ofInstructions [.fstore (.wide 2)]).listing {} none := by
  decide

end Listings

end Code

end Bytecode
