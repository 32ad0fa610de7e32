import Bytecode.Proofs.CommandLine.InputLines
import Bytecode.Proofs.Code.Decoding
import Bytecode.Proofs.Hex.Tokens

/-!
# A run line by line

Without a hex text among the arguments, a run goes through the lines of its input. What a line
writes depends on the settings and the line alone, and it is added behind what the lines before it
wrote: nothing but the output is carried from one line to the next. So the runs on two texts can be
put together where a line ends, and a line can be put in or left out there.

## Main definitions

* `Settings.Writes`: what one line writes
* `runText`: a run on a text

## Main results

* `Code.ofHex_of_blank`: a blank text is code without instructions
* `Settings.processLines_encoded_cons`: the step of a run over one line
* `runText_append`: the run on a text that is put together, and the place of a line in it
-/

namespace Bytecode

theorem Hex.scan_of_blank {text : List Char} (h : ∀ c ∈ text, Text.isBlank c = true) :
    Scan text [] [] := by
  induction text with
  | nil => exact .nil []
  | cons c text ih =>
    rw [List.forall_mem_cons] at h
    exact .cons (.separator _ (.inl h.1)) (ih h.2)

/-- **A blank text is code without instructions**, whatever is admitted. -/
theorem Code.ofHex_of_blank (options : DecodeOptions) {text : String}
    (h : text.toList.all Text.isBlank = true) :
    Code.ofHex options text = .ok (ofInstructions []) := by
  have hparse : Hex.parse text.toList = .ok [] :=
    Hex.parse_of_spells (Hex.scan_of_blank (List.all_eq_true.mp h)) (Hex.spells_nil_iff.mpr rfl)
  have hdecode : Code.decode options [] = .ok (ofInstructions []) :=
    decode_eq_ok_iff.mpr ⟨Nat.zero_le _, [], fun _ hmem => absurd hmem List.not_mem_nil, rfl, rfl⟩
  rw [ofHex, bytesOfHex, hparse]
  show Code.ofBytes options [] = _
  rw [ofBytes, hdecode]
  rfl

namespace CommandLine

/-! ## What one line writes -/

section Lines

@[simp] theorem Output.append_empty (a : Output) : a.append {} = a := by
  simp [Output.append]

@[simp] theorem Output.empty_append (a : Output) : Output.append {} a = a := by
  simp [Output.append]

theorem Output.append_assoc (a b c : Output) : (a.append b).append c = a.append (b.append c) := by
  simp [Output.append, String.append_assoc]

/-- **What one line writes**: nothing if it is blank, only its failure if it fails, and else its
listing, which statistics of this line alone follow if they are asked for. -/
inductive Settings.Writes (settings : Settings) (line : String) : Output → Prop
  | blank (h : line.toList.all Text.isBlank = true) : settings.Writes line {}
  | failed {failure : Failure} (h : Code.ofHex settings.decodeOptions line = .error failure) :
      settings.Writes line ⟨"", failure.render true⟩
  | listed {code : Code} (hblank : line.toList.all Text.isBlank = false)
      (h : Code.ofHex settings.decodeOptions line = .ok code) :
      settings.Writes line ⟨code.listing settings.listingOptions none ++
        if settings.stats then "\n" ++ (Statistics.ofCode code).report else "", ""⟩

variable {settings : Settings} {line : String} {written : Output}

theorem Settings.exists_writes (settings : Settings) (line : String) :
    ∃ written, settings.Writes line written := by
  cases hblank : line.toList.all Text.isBlank with
  | true => exact ⟨_, .blank hblank⟩
  | false =>
    cases h : Code.ofHex settings.decodeOptions line with
    | error failure => exact ⟨_, .failed h⟩
    | ok code => exact ⟨_, .listed hblank h⟩

/-- **A line adds what it writes** to what was written before, and the run goes on. -/
theorem Settings.processLines_encoded_cons (h : settings.Writes line written) (before : Output)
    (rest : List (List UInt8)) :
    settings.processLines before (encoded line :: rest) =
      settings.processLines (before.append written) rest := by
  rw [processLines, decodeLine?_encoded]
  cases h with
  | blank h =>
    rw [Output.append_empty]
    exact if_pos h
  | @failed failure h =>
    have hblank : ¬line.toList.all Text.isBlank = true := by
      intro hblank
      rw [Code.ofHex_of_blank _ hblank] at h
      cases h
    have hprocess : settings.process line = ⟨"", failure.render true⟩ := by
      rw [process, h]
    rw [← hprocess]
    exact if_neg hblank
  | @listed code hblank h =>
    have hprocess : settings.process line = ⟨code.listing settings.listingOptions none ++
        if settings.stats then "\n" ++ (Statistics.ofCode code).report else "", ""⟩ := by
      rw [process, h]
      cases settings.stats <;> simp [String.append_assoc]
    rw [← hprocess]
    exact if_neg (Bool.eq_false_iff.mp hblank)

/-- **The lines of a text** are gone through in turn, and add what they write. -/
theorem Settings.exists_processLines_eq (settings : Settings) (texts : List String) :
    ∃ written, ∀ before rest, settings.processLines before (texts.map encoded ++ rest) =
      settings.processLines (before.append written) rest := by
  induction texts with
  | nil => exact ⟨{}, fun before rest => by rw [Output.append_empty]; rfl⟩
  | cons line texts ih =>
    obtain ⟨first, hfirst⟩ := settings.exists_writes line
    obtain ⟨others, hothers⟩ := ih
    refine ⟨first.append others, fun before rest => ?_⟩
    rw [List.map_cons, List.cons_append, processLines_encoded_cons hfirst, hothers,
      Output.append_assoc]

end Lines

/-! ## Runs on texts -/

section Runs

/-- **A run on a text**, which is the input. -/
def runText (arguments : List String) (text : String) : Outcome := run arguments (encoded text)

variable {arguments : List String} {settings : Settings}

theorem runText_eq (hsettings : Settings.parse arguments = .ok settings)
    (hhex : settings.hex = none) (text : String) :
    runText arguments text = settings.processLines {} (inputLines (encoded text)) := by
  rw [runText, run, hsettings]
  show settings.run _ = _
  rw [Settings.run, hhex]

/-- **A run on a text** ends well, and what it writes is the part of the text in any longer run. -/
theorem exists_runText_eq (hsettings : Settings.parse arguments = .ok settings)
    (hhex : settings.hex = none) (text : String) :
    ∃ written, runText arguments text = ⟨0, written⟩ ∧
      (∀ before, settings.processLines before (inputLines (encoded text)) =
        ⟨0, before.append written⟩) ∧
      ∀ before rest, settings.processLines before (inputLines (encoded text) ++ rest) =
        settings.processLines (before.append written) rest := by
  obtain ⟨texts, htexts⟩ := exists_texts text
  obtain ⟨written, hwritten⟩ := settings.exists_processLines_eq texts
  rw [← htexts] at hwritten
  have hend (before : Output) : settings.processLines before (inputLines (encoded text)) =
      ⟨0, before.append written⟩ := by
    have hall := hwritten before []
    rw [List.append_nil] at hall
    exact hall
  refine ⟨written, ?_, hend, hwritten⟩
  rw [runText_eq hsettings hhex, hend, Output.empty_append]

/-- **Runs are put together where a line ends**: without a hex text among the arguments, a run on
two texts ends well and writes what the run on the first writes, and then what the run on the second
writes. A line between them adds what it writes alone, and changes nothing else. -/
theorem runText_append (hsettings : Settings.parse arguments = .ok settings)
    (hhex : settings.hex = none) {before : String}
    (hbefore : before = "" ∨ ∃ front, before = front ++ "\n") (after : String) :
    runText arguments (before ++ after) =
        ⟨0, (runText arguments before).output.append (runText arguments after).output⟩ ∧
      (runText arguments before).exitCode = 0 ∧ (runText arguments after).exitCode = 0 ∧
      ∀ line ending, '\n' ∉ line.toList → LineEnd line ending after →
        (∃ written, settings.Writes line written) ∧
        ∀ written, settings.Writes line written →
          runText arguments (before ++ (line ++ (ending ++ after))) =
            ⟨0, (runText arguments before).output.append
              (written.append (runText arguments after).output)⟩ := by
  obtain ⟨first, hfirst, -, hbehind⟩ := exists_runText_eq hsettings hhex before
  obtain ⟨second, hsecond, hend, -⟩ := exists_runText_eq hsettings hhex after
  rw [hfirst, hsecond]
  refine ⟨?_, rfl, rfl, fun line ending hline hending => ⟨settings.exists_writes line, ?_⟩⟩
  · rw [runText_eq hsettings hhex, inputLines_encoded_append hbefore, hbehind,
      Output.empty_append, hend]
  · intro written hwritten
    rw [runText_eq hsettings hhex, inputLines_encoded_append hbefore, hbehind,
      Output.empty_append, inputLines_encoded_line hline hending,
      Settings.processLines_encoded_cons hwritten, hend, Output.append_assoc]

/-- A line with a letter that is no digit, between a blank line and one that lacks its end, with
statistics asked for. -/
theorem runText_append_letter :
    Settings.parse ["-v", "--stats"] = .ok { verbose := true, stats := true } ∧
      runText ["-v", "--stats"] ("03\n\u3000\t\n" ++ ("0x0g" ++ ("\r\n" ++ "06"))) =
        ⟨0, (runText ["-v", "--stats"] "03\n\u3000\t\n").output.append
          (Output.append ⟨"", (Failure.hex (.invalidDigit 'g' 3) "0x0g").render true⟩
            (runText ["-v", "--stats"] "06").output)⟩ := by
  have hsettings : Settings.parse ["-v", "--stats"] = .ok { verbose := true, stats := true } := rfl
  have hfailed : Code.ofHex (Settings.decodeOptions { verbose := true, stats := true }) "0x0g" =
      .error (.hex (.invalidDigit 'g' 3) "0x0g") := rfl
  have hbefore : "03\n\u3000\t\n" = "03\n\u3000\t" ++ "\n" := by decide
  obtain ⟨-, -, -, hline⟩ := runText_append hsettings rfl (.inr ⟨_, hbefore⟩) "06"
  exact ⟨hsettings, (hline "0x0g" "\r\n" (by decide) (.returnFeed "06")).2 _ (.failed hfailed)⟩

end Runs

end CommandLine

end Bytecode
