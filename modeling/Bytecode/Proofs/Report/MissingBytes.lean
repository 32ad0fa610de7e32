import Bytecode.Proofs.Code.Truncation
import Bytecode.Proofs.Report.MarkedByte

/-!
# The number of bytes missing

The report of an array that ends too soon marks the last byte, and says how many more bytes are
needed after it. What it says is the number of bytes that the read needs. If none of them are there
this is the number missing. But if one of two is there, then this byte is the one marked, and the
report says two where one is missing.

## Main results

* `Report.exists_join_pieces_eq`: the label stands in the text of a report
* `Failure.label_of_unexpectedEnd`: what a report says of missing bytes, and how many are missing
* `Failure.not_missing_bytes_counted`: these are not always the same number
-/

namespace Bytecode

/-! ## The label in the text -/

/-- A piece stands in the text of the pieces it is one of. -/
theorem Piece.exists_join_eq {pieces : List Piece} {piece : Piece} (h : piece ∈ pieces)
    (colored : Bool) :
    ∃ before behind, join colored pieces = before ++ piece.render colored ++ behind := by
  obtain ⟨front, back, rfl⟩ := List.append_of_mem h
  refine ⟨join colored front, join colored back, ?_⟩
  rw [join, List.map_append, List.map_cons, String.join_append, String.join_cons, join, join,
    String.append_assoc]

theorem Piece.render_plain (colored : Bool) (text : String) :
    (plain text).render colored = text := by
  cases colored <;> rfl

theorem Report.label_mem_pieces (report : Report) : .plain (" " ++ report.label) ∈ report.pieces := by
  apply List.mem_flatMap.mpr
  refine ⟨report.markedLine.margin ++ report.markedLine.row report.markedLine.arrow ++
    [.plain (" " ++ report.label)], ?_, by simp⟩
  simp [rows]

/-- **The label stands in the text of a report**, with or without colours. -/
theorem Report.exists_join_pieces_eq (report : Report) (colored : Bool) :
    ∃ before behind, Piece.join colored report.pieces = before ++ report.label ++ behind := by
  obtain ⟨before, behind, hjoin⟩ := Piece.exists_join_eq report.label_mem_pieces colored
  refine ⟨before ++ " ", behind, ?_⟩
  rw [hjoin, Piece.render_plain]
  simp only [String.append_assoc]

/-! ## The label of missing bytes -/

namespace Failure

theorem notice_unexpectedEnd {bytes : List UInt8} (h : bytes ≠ []) (offset needed available : Nat) :
    (Failure.decode (.unexpectedEnd offset needed available) bytes).notice =
      .report ⟨DecodeError.message (.unexpectedEnd offset needed available), "<code>",
        Hex.dump bytes, (byteSpan offset bytes.length).1, (byteSpan offset bytes.length).2,
        s!"needs {needed} more byte(s) after this", none⟩ := by
  obtain ⟨byte, rest, rfl⟩ := List.exists_cons_of_ne_nil h
  rfl

/-- A reference of whose index one byte is there. -/
theorem decode_cut_reference :
    Code.decode {} [0x03, 0x13, 0x01] = .error (.unexpectedEnd 2 2 1) := by
  have hrefusal : Instruction.Refusal true 1 [0x13, 0x01] (.unexpectedEnd 2 2 1) :=
    @Instruction.Refusal.truncated true 1 ⟨.ldcW, false⟩ [0x01] ⟨Opcode.noConfusion, nofun⟩
      (by decide)
  exact @Code.decode_of_refusal {} [.iconst .zero] [0x13, 0x01] _ (fun _ _ _ => rfl) (by decide)
    (List.cons_ne_nil _ _) hrefusal

/-- **What a report says of missing bytes**. It marks the last byte, and says that as many bytes are
needed after it as the read needs. Missing are the bytes needed less those available, so the label
is right just if none are available; otherwise one is, and the label says one too many. -/
theorem label_of_unexpectedEnd {options : DecodeOptions} {bytes : List UInt8}
    {offset needed available : Nat}
    (h : Code.decode options bytes = .error (.unexpectedEnd offset needed available)) :
    ∃ report byte,
      (Failure.decode (.unexpectedEnd offset needed available) bytes).notice = .report report ∧
      report.MarksByte bytes (min offset (bytes.length - 1)) byte ∧
      report.label = s!"needs {needed} more byte(s) after this" ∧
      (∀ colored, ∃ before behind,
        (Failure.decode (.unexpectedEnd offset needed available) bytes).render colored =
          before ++ report.label ++ behind) ∧
      min offset (bytes.length - 1) + 1 + (needed - available) = offset + needed ∧
      Code.LacksBytes options bytes offset (needed - available) ∧
      available ≤ 1 ∧
      (min offset (bytes.length - 1) + 1 + needed = offset + needed ↔ available = 0) := by
  obtain ⟨lead, run, hbytes, hlead, hoffset, hrun, hshort, hneeded, -⟩ :=
    Code.exists_lead_of_unexpectedEnd h
  -- the array is what was read and the bytes available, so there is a last byte to be marked
  have hlength : bytes.length = offset + available := by
    rw [hbytes, List.length_append, hoffset, hrun]
  have hpos : 0 < offset := by
    rw [← hoffset]
    exact List.length_pos_iff.mpr hlead
  have hnil : bytes ≠ [] := by
    rw [hbytes]
    exact List.append_ne_nil_of_left_ne_nil hlead run
  obtain ⟨byte, hbyte⟩ : ∃ byte, bytes[min offset (bytes.length - 1)]? = some byte :=
    ⟨_, List.getElem?_eq_getElem (by omega)⟩
  have hnotice := notice_unexpectedEnd hnil offset needed available
  refine ⟨_, byte, hnotice, Report.marksByte_of_span hbyte rfl rfl rfl, rfl, fun colored => ?_, ?_,
    Code.lacksBytes_of_unexpectedEnd h, ?_, ?_⟩
  · rw [render, hnotice]
    exact Report.exists_join_pieces_eq _ colored
  · omega
  · omega
  · omega

/-- A store whose slot is missing, of which the report says so, and a reference of which one byte is
there: marked is this byte, and one more is missing. -/
theorem label_of_unexpectedEnd_cut :
    (Code.decode {} [0x05, 0xC4, 0x38] = .error (.unexpectedEnd 3 2 0) ∧
      Code.LacksBytes {} [0x05, 0xC4, 0x38] 3 2 ∧
      ∃ report, (Failure.decode (.unexpectedEnd 3 2 0) [0x05, 0xC4, 0x38]).notice = .report report ∧
        report.label = "needs 2 more byte(s) after this" ∧
        report.MarksByte [0x05, 0xC4, 0x38] 2 0x38) ∧
    Code.decode {} [0x03, 0x13, 0x01] = .error (.unexpectedEnd 2 2 1) ∧
      Code.LacksBytes {} [0x03, 0x13, 0x01] 2 1 ∧
      ∃ report, (Failure.decode (.unexpectedEnd 2 2 1) [0x03, 0x13, 0x01]).notice = .report report ∧
        report.label = "needs 2 more byte(s) after this" ∧
        report.MarksByte [0x03, 0x13, 0x01] 2 0x01 := by
  have hrefusal : Instruction.Refusal true 1 [0xC4, 0x38] (.unexpectedEnd 3 2 0) :=
    @Instruction.Refusal.truncated true 1 ⟨.fstore, true⟩ []
      ⟨Opcode.noConfusion, fun _ => ⟨rfl, rfl⟩⟩ (by decide)
  have hstore : Code.decode {} [0x05, 0xC4, 0x38] = .error (.unexpectedEnd 3 2 0) :=
    @Code.decode_of_refusal {} [.iconst .two] [0xC4, 0x38] _ (fun _ _ _ => rfl) (by decide)
      (List.cons_ne_nil _ _) hrefusal
  obtain ⟨report, byte, hnotice, hmarks, hlabel, -, -, hlacks, -⟩ := label_of_unexpectedEnd hstore
  obtain ⟨report', byte', hnotice', hmarks', hlabel', -, -, hlacks', -⟩ :=
    label_of_unexpectedEnd decode_cut_reference
  obtain rfl : 0x38 = byte := Option.some.inj hmarks.getElem?_eq
  obtain rfl : 0x01 = byte' := Option.some.inj hmarks'.getElem?_eq
  exact ⟨⟨hstore, hlacks, report, hnotice, hlabel, hmarks⟩,
    decode_cut_reference, hlacks', report', hnotice', hlabel', hmarks'⟩

/-- **Not every label counts the bytes missing**: of a reference whose index is cut in two, one byte
is missing after the one that is marked, and the label says two. -/
theorem not_missing_bytes_counted :
    ¬∀ (options : DecodeOptions) (bytes : List UInt8) (offset needed available : Nat)
      (report : Report) (number : Nat),
      Code.decode options bytes = .error (.unexpectedEnd offset needed available) →
      (Failure.decode (.unexpectedEnd offset needed available) bytes).notice = .report report →
      report.label = s!"needs {number} more byte(s) after this" →
      min offset (bytes.length - 1) + 1 + number = offset + needed := by
  intro hall
  have hcount := hall {} [0x03, 0x13, 0x01] 2 2 1 _ 2 decode_cut_reference rfl rfl
  exact absurd hcount (by decide)

end Failure

end Bytecode
