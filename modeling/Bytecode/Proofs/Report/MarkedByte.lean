import Bytecode.Proofs.Code.FailingPlace
import Bytecode.Proofs.Hex.DumpLines
import Bytecode.Report

/-!
# The byte that a report marks

A failed decoding names an offset, and the report of it marks two characters of a dump. Three pieces
have to fit: the offset that the decoder arrives at, the place that a byte has in a dump, and the
line that is shown of it. They do: the two characters spell the byte at fault in upper case, or the
last byte if bytes are missing, and line and column of the report are those of these digits.

## Main definitions

* `Report.MarksByte`: the marks of a report are the digits of a byte in a dump

## Main results

* `SourceLine.holding_of_newlines`: the line of a place, from the line feeds before it
* `Code.FailsAt.exists_byte_at`: every offset named leads to a byte
* `Failure.notice_marks_byte`: the report of a failed decoding marks this byte
-/

namespace Bytecode

/-! ## The line of a place -/

namespace SourceLine

theorem splitFrom_cons {c : Char} (h : c ≠ '\r') (found : List (List Char))
    (current rest : List Char) :
    splitFrom found current (c :: rest) =
      if isLineEnd c then splitFrom ((c :: current).reverse :: found) [] rest
      else splitFrom found (c :: current) rest := by
  conv => lhs; unfold splitFrom
  split
  · next h' => cases h'
  · next h' =>
    cases h'
    exact absurd rfl h
  · next h' =>
    cases h'
    rfl

/-- **A text whose lines end in line feeds only**. -/
def EndsInNewlines (text : List Char) : Prop := ∀ c ∈ text, isLineEnd c = true → c = '\n'

/-- Lines found before stand in front of the others. -/
theorem splitFrom_append {text : List Char} (h : EndsInNewlines text)
    (found before : List (List Char)) (current : List Char) :
    splitFrom (found ++ before) current text = before.reverse ++ splitFrom found current text := by
  induction text generalizing found current with
  | nil => simp [splitFrom]
  | cons c rest ih =>
    obtain ⟨hc, hrest⟩ := List.forall_mem_cons.mp h
    have hreturn : c ≠ '\r' := by
      rintro rfl
      exact absurd (hc rfl) (by decide)
    rw [splitFrom_cons hreturn, splitFrom_cons hreturn]
    split
    · exact ih hrest (_ :: found) []
    · exact ih hrest found (c :: current)

/-- A line feed ends the line that has been begun. -/
theorem splitFrom_newline {rest : List Char} (h : EndsInNewlines rest) (line : List Char) :
    splitFrom [] line.reverse ('\n' :: rest) = (line ++ ['\n']) :: splitFrom [] [] rest := by
  have hlines := splitFrom_append h [] [('\n' :: line.reverse).reverse] []
  rw [List.nil_append, List.reverse_singleton, List.singleton_append] at hlines
  have hend : isLineEnd '\n' = true := rfl
  rw [splitFrom_cons (by decide), if_pos hend, hlines, List.reverse_cons, List.reverse_reverse]

/-- Every other character belongs to the line that has been begun. -/
theorem splitFrom_of_ne_newline {c : Char} (hc : isLineEnd c = true → c = '\n') (hne : c ≠ '\n')
    (line rest : List Char) :
    splitFrom [] line.reverse (c :: rest) = splitFrom [] (line ++ [c]).reverse rest := by
  have hend : ¬isLineEnd c = true := fun hend => hne (hc hend)
  have hreturn : c ≠ '\r' := by
    rintro rfl
    exact hend rfl
  rw [splitFrom_cons hreturn, if_neg hend, List.reverse_append, List.reverse_singleton,
    List.singleton_append]

/-- The beginning of a line has no line feed, and its column is its length. -/
theorem count_newline_take {line : List Char} (h : '\n' ∉ line) (rest : List Char) {n : Nat}
    (hn : n ≤ line.length) :
    ((line ++ rest).take n).count '\n' = 0 ∧ Text.column ((line ++ rest).take n) = n := by
  rw [List.take_append_of_le_length hn]
  have htake : '\n' ∉ line.take n := fun hmem => h (List.mem_of_mem_take hmem)
  refine ⟨List.count_eq_zero.mpr htake, ?_⟩
  rw [Text.column_of_not_mem htake, List.length_take, Nat.min_eq_left hn]

/-- **The line that holds a place**, of lines that end in line feeds. Counted from a line of which
some characters are there already, it is told by the text before the place. -/
theorem find_splitFrom {text : List Char} (h : EndsInNewlines text) {place : Nat}
    (number first : Nat) (line : List Char) (hline : '\n' ∉ line) (hfirst : first ≤ place)
    (hplace : place < first + line.length + text.length) :
    (find place number first (splitFrom [] line.reverse text)).number =
        number + ((line ++ text).take (place - first)).count '\n' ∧
      (find place number first (splitFrom [] line.reverse text)).first +
        Text.column ((line ++ text).take (place - first)) = place := by
  induction text generalizing number first line with
  | nil =>
    rw [List.length_nil, Nat.add_zero] at hplace
    have hwithin : place - first ≤ line.length := by omega
    obtain ⟨hcount, hcolumn⟩ := count_newline_take hline [] hwithin
    rw [hcount, hcolumn, splitFrom, List.reverse_singleton, List.reverse_reverse, find,
      if_pos hplace]
    exact ⟨rfl, Nat.add_sub_cancel' hfirst⟩
  | cons c rest ih =>
    obtain ⟨hc, hrest⟩ := List.forall_mem_cons.mp h
    rw [List.length_cons] at hplace
    by_cases hnewline : c = '\n'
    · subst hnewline
      rw [splitFrom_newline hrest, find, List.length_append, List.length_singleton]
      split
      · have hwithin : place - first ≤ line.length := by omega
        obtain ⟨hcount, hcolumn⟩ := count_newline_take hline ('\n' :: rest) hwithin
        rw [hcount, hcolumn]
        exact ⟨rfl, Nat.add_sub_cancel' hfirst⟩
      · -- the place is behind this line: what stands before it is the line and a part of the rest
        obtain ⟨hnumber, hcolumn⟩ := ih hrest (number + 1) (first + (line.length + 1)) []
          List.not_mem_nil (by omega) (by rw [List.length_nil]; omega)
        rw [List.reverse_nil, List.nil_append] at hnumber hcolumn
        have hlength : place - first =
            line.length + (place - (first + (line.length + 1)) + 1) := by omega
        rw [hlength, List.take_length_add_append, List.take_succ_cons, List.count_append,
          List.count_eq_zero.mpr hline, List.count_cons_self, Text.column_append_newline_append]
        exact ⟨by omega, hcolumn⟩
    · have hlonger := ih hrest number first (line ++ [c]) (by simp [hline, Ne.symm hnewline]) hfirst
        (by rw [List.length_append, List.length_singleton]; omega)
      rw [List.append_assoc, List.singleton_append] at hlonger
      rw [splitFrom_of_ne_newline hc hnewline]
      exact hlonger

/-- **The line that holds a place** is told by the text before the place, if lines end in line
feeds only. -/
theorem holding_of_newlines {source : List Char} (h : EndsInNewlines source) {place : Nat}
    (hplace : place < source.length) :
    (holding place source).number = (source.take place).count '\n' + 1 ∧
      (holding place source).first + Text.column (source.take place) = place := by
  obtain ⟨hnumber, hcolumn⟩ := find_splitFrom h 1 0 [] List.not_mem_nil (Nat.zero_le place)
    (by simpa using hplace)
  rw [List.reverse_nil, List.nil_append, Nat.sub_zero] at hnumber hcolumn
  rw [holding, split, hnumber]
  exact ⟨Nat.add_comm _ _, hcolumn⟩

theorem isLineEnd_upperDigit (value : Fin 16) : isLineEnd (Hex.upperDigit value) = false := by
  decide +revert

/-- **The lines of a dump** end in line feeds only. -/
theorem endsInNewlines_dump (bytes : List UInt8) : EndsInNewlines (Hex.dump bytes) := by
  intro c hc hend
  rw [Hex.dump, List.mem_flatMap] at hc
  obtain ⟨⟨byte, place⟩, -, hc⟩ := hc
  simp only [Hex.upperPair, Hex.dumpSeparator, List.cons_append, List.nil_append, List.mem_cons,
    List.not_mem_nil, or_false] at hc
  rcases hc with rfl | rfl | hseparator
  · rw [isLineEnd_upperDigit] at hend
    cases hend
  · rw [isLineEnd_upperDigit] at hend
    cases hend
  · split at hseparator
    · exact hseparator
    · subst hseparator
      exact absurd hend (by decide)

end SourceLine

/-! ## The byte of an offset -/

/-- **Every offset named leads to a byte**: to the one at fault, which the error gives, or past all
of them but the last if bytes are missing. -/
theorem Code.FailsAt.exists_byte_at {allowWide : Bool} {bytes : List UInt8} {place : Nat}
    {e : DecodeError} (h : Code.FailsAt allowWide bytes place e) (hplace : place < bytes.length) :
    ∃ offset byte, e.offset? = some offset ∧ bytes[min offset (bytes.length - 1)]? = some byte ∧
      (∀ opcode, e = .unknownOpcode opcode offset ∨ e = .illegalWide opcode offset →
        byte = opcode) ∧
      ∀ needed available, e = .unexpectedEnd offset needed available →
        min offset (bytes.length - 1) = bytes.length - 1 := by
  have hat {offset : Nat} {byte : UInt8} (hbyte : bytes[offset]? = some byte) :
      bytes[min offset (bytes.length - 1)]? = some byte := by
    have hoffset := (List.getElem?_eq_some_iff.mp hbyte).1
    rw [Nat.min_eq_left (by omega)]
    exact hbyte
  cases h with
  | unknown hbyte hunknown hoffset => exact ⟨_, _, rfl, hat hbyte, by simp, by simp⟩
  | refusedMark hwide hmark => exact ⟨_, _, rfl, hat hmark, by simp, by simp⟩
  | misplacedMark hwide hmark hbyte hknown hfstore =>
    exact ⟨_, _, rfl, hat hbyte, by simp, by simp⟩
  | @cutShort offset needed available hend hshort hneeded hoffset =>
    -- at most one byte is there where two are needed, so nothing is behind the last
    have hlast : min offset (bytes.length - 1) = bytes.length - 1 := Nat.min_eq_right (by omega)
    obtain ⟨byte, hbyte⟩ : ∃ byte, bytes[bytes.length - 1]? = some byte :=
      ⟨_, List.getElem?_eq_getElem (by omega)⟩
    refine ⟨offset, byte, rfl, ?_, by simp, fun _ _ _ => hlast⟩
    rw [hlast]
    exact hbyte

/-! ## The marks of a report -/

/-- The characters marked. -/
def Report.marked (report : Report) : List Char :=
  (report.source.take report.stop).drop report.start

/-- **A report marks a byte of a dump**: the marks are under the two upper-case digits of it, and what
the report says of line and column is true of them. -/
structure Report.MarksByte (report : Report) (bytes : List UInt8) (place : Nat) (byte : UInt8) :
    Prop where
  source_eq : report.source = Hex.dump bytes
  getElem?_eq : bytes[place]? = some byte
  span_eq : (report.start, report.stop) = (3 * place, 3 * place + 2)
  stop_le : report.stop ≤ report.source.length
  marked_eq : report.marked = Hex.upperPair byte
  spells : Hex.SpellsUpper report.marked byte
  no_separator : ∀ c ∈ report.marked, c ≠ ' ' ∧ c ≠ '\n'
  lines_before : (report.source.take report.start).count '\n' = place / 16
  column_before : Text.column (report.source.take report.start) = 3 * (place % 16)
  number_eq : report.markedLine.line.number = place / 16 + 1
  column_eq : report.markedLine.column = 3 * (place % 16)
  count_eq : report.markedLine.count = 2

/-- **Two characters at three times the place of a byte** are its digits. -/
theorem Report.marksByte_of_span {report : Report} {bytes : List UInt8} {place : Nat} {byte : UInt8}
    (hbyte : bytes[place]? = some byte) (hsource : report.source = Hex.dump bytes)
    (hstart : report.start = 3 * place) (hstop : report.stop = 3 * place + 2) :
    report.MarksByte bytes place byte := by
  have hplace := (List.getElem?_eq_some_iff.mp hbyte).1
  have hbefore : (bytes.take place).length = place := by
    rw [List.length_take, Nat.min_eq_left (Nat.le_of_lt hplace)]
  obtain ⟨run, hdump⟩ := Hex.dump_eq_append hbyte
  have hlength : (Hex.dump (bytes.take place)).length = 3 * place := by
    rw [Hex.length_dump, hbefore]
  have htake : report.source.take report.start = Hex.dump (bytes.take place) := by
    rw [hsource, hdump, hstart, ← hlength, List.take_left]
  have hmarked : report.marked = Hex.upperPair byte := by
    rw [marked, hsource, hdump, hstop, hstart, ← hlength, List.take_length_add_append,
      List.drop_left]
    rfl
  have hlines : (report.source.take report.start).count '\n' = place / 16 := by
    rw [htake, Hex.count_newline_dump, hbefore]
  have hcolumn : Text.column (report.source.take report.start) = 3 * (place % 16) := by
    rw [htake, Hex.column_dump, hbefore]
  have hwithin : report.start < report.source.length := by
    rw [hsource, Hex.length_dump]
    omega
  obtain ⟨hnumber, hfirst⟩ := SourceLine.holding_of_newlines
    (by rw [hsource]; exact SourceLine.endsInNewlines_dump bytes) hwithin
  exact {
    source_eq := hsource
    getElem?_eq := hbyte
    span_eq := by rw [hstart, hstop]
    stop_le := by
      rw [hsource, Hex.length_dump]
      omega
    marked_eq := hmarked
    spells := hmarked ▸ Hex.spellsUpper_upperPair byte
    no_separator := fun c hc => Hex.ne_of_mem_upperPair (hmarked ▸ hc)
    lines_before := hlines
    column_before := hcolumn
    number_eq := by
      rw [← hlines]
      exact hnumber
    column_eq := by
      simp only [markedLine]
      omega
    count_eq := by
      simp only [markedLine]
      omega }

/-! ## The report of a failed decoding -/

theorem Code.ofBytes_eq_error_iff {options : DecodeOptions} {bytes : List UInt8}
    {failure : Failure} :
    Code.ofBytes options bytes = .error failure ↔
      ∃ e, failure = .decode e bytes ∧ Code.decode options bytes = .error e := by
  unfold Code.ofBytes
  cases Code.decode options bytes with
  | error e => simp [Except.mapError, eq_comm]
  | ok code => simp [Except.mapError]

theorem Code.ofBytes_of_refusal {options : DecodeOptions} {instructions : List Instruction}
    {rest : List UInt8} {e : DecodeError}
    (h : ∀ instruction ∈ instructions, instruction.Admitted options.allowWide)
    (hlength : (instructions.flatMap Instruction.bytes ++ rest).length ≤ options.maxCodeLength)
    (hrest : rest ≠ [])
    (hrefusal : Instruction.Refusal options.allowWide
      (instructions.flatMap Instruction.bytes).length rest e) :
    Code.ofBytes options (instructions.flatMap Instruction.bytes ++ rest) =
      .error (.decode e (instructions.flatMap Instruction.bytes ++ rest)) := by
  apply Code.ofBytes_eq_error_iff.mpr
  exact ⟨e, rfl, Code.decode_of_refusal h hlength hrest hrefusal⟩

theorem Failure.notice_decode {e : DecodeError} {offset : Nat} (h : e.offset? = some offset)
    {bytes : List UInt8} (hbytes : bytes ≠ []) :
    ∃ label help, (Failure.decode e bytes).notice =
      .report ⟨e.message, "<code>", Hex.dump bytes, (byteSpan offset bytes.length).1,
        (byteSpan offset bytes.length).2, label, help⟩ := by
  obtain ⟨byte, rest, rfl⟩ := List.exists_cons_of_ne_nil hbytes
  cases e with
  | codeTooLong length limit => cases h
  | _ =>
    cases h
    exact ⟨_, _, rfl⟩

/-- **The report of a failed decoding marks the byte at fault**, or the last one if bytes are
missing. The byte at fault is the one that the error names, so its digits are those marked. Only of
an array that is too long no byte is at fault. -/
theorem Failure.notice_marks_byte {options : DecodeOptions} {bytes : List UInt8}
    {failure : Failure} (h : Code.ofBytes options bytes = .error failure)
    (hlength : ∀ kept length limit, failure ≠ .decode (.codeTooLong length limit) kept) :
    ∃ e, failure = .decode e bytes ∧ bytes ≠ [] ∧ ∃ offset report byte,
      e.offset? = some offset ∧ failure.notice = .report report ∧
      byteSpan offset bytes.length = (report.start, report.stop) ∧
      report.MarksByte bytes (min offset (bytes.length - 1)) byte ∧
      (∀ opcode, e = .unknownOpcode opcode offset ∨ e = .illegalWide opcode offset →
        byte = opcode ∧ Hex.SpellsUpper report.marked opcode) ∧
      ∀ needed available, e = .unexpectedEnd offset needed available →
        min offset (bytes.length - 1) = bytes.length - 1 := by
  obtain ⟨e, rfl, hdecode⟩ := Code.ofBytes_eq_error_iff.mp h
  rcases Code.decode_eq_error_iff.mp hdecode with
    ⟨-, rfl⟩ | ⟨-, instructions, rest, -, rfl, hrest, hrefusal⟩
  · exact absurd rfl (hlength _ _ _)
  have hplace : (instructions.flatMap Instruction.bytes).length <
      (instructions.flatMap Instruction.bytes ++ rest).length := by
    rw [List.length_append]
    exact Nat.lt_add_of_pos_right (List.length_pos_iff.mpr hrest)
  obtain ⟨offset, byte, hoffset, hbyte, hopcode, hend⟩ :=
    (Code.failsAt_of_refusal hrest hrefusal).exists_byte_at hplace
  have hbytes := List.ne_nil_of_length_pos (Nat.zero_lt_of_lt hplace)
  obtain ⟨label, help, hnotice⟩ := Failure.notice_decode hoffset hbytes
  have hmarks := @Report.marksByte_of_span ⟨e.message, "<code>", _, _, _, label, help⟩ _ _ _
    hbyte rfl rfl rfl
  refine ⟨e, rfl, hbytes, offset, _, byte, hoffset, hnotice, rfl, hmarks, ?_, hend⟩
  intro opcode hcause
  obtain rfl := hopcode opcode hcause
  exact ⟨rfl, hmarks.spells⟩

/-- Behind a full line of the dump, a store whose slot is cut in two and a mark before no opcode:
marked is what is left of the slot, and the byte behind the mark. -/
theorem Failure.notice_marks_byte_cut :
    let full := List.replicate 16 0x03
    let cut := Failure.decode (.unexpectedEnd 18 2 1) (full ++ [0xC4, 0x38, 0xAB])
    let unknown := Failure.decode (.unknownOpcode 0xFE 17) (full ++ [0xC4, 0xFE])
    (Code.ofBytes {} (full ++ [0xC4, 0x38, 0xAB]) = .error cut ∧
      (∀ kept length limit, cut ≠ .decode (.codeTooLong length limit) kept) ∧
      ∃ report, cut.notice = .report report ∧
        report.MarksByte (full ++ [0xC4, 0x38, 0xAB]) 18 0xAB ∧ report.marked = ['A', 'B']) ∧
    Code.ofBytes {} (full ++ [0xC4, 0xFE]) = .error unknown ∧
      (∀ kept length limit, unknown ≠ .decode (.codeTooLong length limit) kept) ∧
      ∃ report, unknown.notice = .report report ∧
        report.MarksByte (full ++ [0xC4, 0xFE]) 17 0xFE ∧
        Hex.SpellsUpper report.marked 0xFE ∧ report.marked = ['F', 'E'] := by
  intro full cut unknown
  have hcut : Code.ofBytes {} (full ++ [0xC4, 0x38, 0xAB]) = .error cut := by
    have hrefusal : Instruction.Refusal true 16 [0xC4, 0x38, 0xAB] (.unexpectedEnd 18 2 1) :=
      @Instruction.Refusal.truncated true 16 ⟨.fstore, true⟩ [0xAB]
        ⟨Opcode.noConfusion, fun _ => ⟨rfl, rfl⟩⟩ (by decide)
    exact @Code.ofBytes_of_refusal {} (List.replicate 16 (.iconst .zero)) _ _
      (fun _ _ _ => rfl) (by decide) (List.cons_ne_nil _ _) hrefusal
  have hunknown : Code.ofBytes {} (full ++ [0xC4, 0xFE]) = .error unknown := by
    have hrefusal : Instruction.Refusal true 16 [0xC4, 0xFE] (.unknownOpcode 0xFE 17) :=
      .unknownMarked [] rfl rfl
    exact @Code.ofBytes_of_refusal {} (List.replicate 16 (.iconst .zero)) _ _
      (fun _ _ _ => rfl) (by decide) (List.cons_ne_nil _ _) hrefusal
  refine ⟨⟨hcut, by simp [cut], ?_⟩, hunknown, by simp [unknown], ?_⟩
  · obtain ⟨e, hfailure, -, offset, report, byte, hoffset, hnotice, -, hmarks, -⟩ :=
      Failure.notice_marks_byte hcut (by simp [cut])
    obtain rfl : .unexpectedEnd 18 2 1 = e := (Failure.decode.inj hfailure).1
    cases hoffset
    obtain rfl : 0xAB = byte := Option.some.inj hmarks.getElem?_eq
    exact ⟨report, hnotice, hmarks, hmarks.marked_eq⟩
  · obtain ⟨e, hfailure, -, offset, report, byte, hoffset, hnotice, -, hmarks, hopcode, -⟩ :=
      Failure.notice_marks_byte hunknown (by simp [unknown])
    obtain rfl : .unknownOpcode 0xFE 17 = e := (Failure.decode.inj hfailure).1
    cases hoffset
    obtain ⟨rfl, hspells⟩ := hopcode 0xFE (.inl rfl)
    exact ⟨report, hnotice, hmarks, hspells, hmarks.marked_eq⟩

end Bytecode
