import Bytecode.Proofs.Hex.DumpLines
import Bytecode.Proofs.Hex.Tokens

/-!
# The spellings of bytes

The same bytes can be spelled in many ways: a digit is written in either case, and in front of
every digit and at the end there may be a gap of blanks, commas and marks. What follows a digit
never opens with the letter of a mark, be it a gap, another digit or another spelling, so a zero is
nowhere taken for half of a mark. Hence spellings can stand one behind another, and the texts that
are read as given bytes are just the spellings of them. A dump is one of these.

## Main definitions

* `Hex.Gap`: what may stand in front of a digit
* `Hex.Spelling`: the texts that spell given bytes

## Main results

* `Hex.Spelling.append`: one spelling behind another
* `Hex.spelling_dump`, `Hex.spelling_flatMap_lowerPair`: a dump and the compact form are spellings
* `Hex.parse_eq_ok_iff_spelling`: reading gives the bytes that are spelled
* `Hex.parse_spellings`: reading two texts in one, reading a dump, and reading a spelling
-/

namespace Bytecode.Hex

/-- **A gap**: blanks, commas and marks, in any number and in any order. -/
inductive Gap : List Char → Prop
  | nil : Gap []
  | separator {c : Char} {rest : List Char} (h : Text.isBlank c = true ∨ c = ',')
      (hrest : Gap rest) : Gap (c :: rest)
  | mark {c : Char} {rest : List Char} (h : c = 'x' ∨ c = 'X') (hrest : Gap rest) :
      Gap ('0' :: c :: rest)

/-- A character is a digit, of either case, for a value. -/
def IsDigit (c : Char) (value : Fin 16) : Prop := c = upperDigit value ∨ c = lowerDigit value

/-- **A spelling of bytes**: the two digits of each byte, each of them after a gap, and a gap at the
end. -/
inductive Spelling : List Char → List UInt8 → Prop
  | nil {gap : List Char} (h : Gap gap) : Spelling gap []
  | cons {before between rest : List Char} {hi lo : Char} {byte : UInt8} {bytes : List UInt8}
      (hbefore : Gap before) (hhi : IsDigit hi (highHalf byte)) (hbetween : Gap between)
      (hlo : IsDigit lo (lowHalf byte)) (hrest : Spelling rest bytes) :
      Spelling (before ++ hi :: (between ++ lo :: rest)) (byte :: bytes)

/-! ## Spellings behind one another -/

section Append

theorem Gap.append {gap other : List Char} (h : Gap gap) (hother : Gap other) :
    Gap (gap ++ other) := by
  induction h with
  | nil => exact hother
  | separator hc _ ih => exact .separator hc ih
  | mark hc _ ih => exact .mark hc ih

variable {text rest : List Char} {bytes others : List UInt8}

/-- A gap in front of a spelling is part of it. -/
theorem Spelling.of_gap {gap : List Char} (h : Gap gap) (hrest : Spelling rest bytes) :
    Spelling (gap ++ rest) bytes := by
  cases hrest with
  | nil hgap => exact .nil (h.append hgap)
  | cons hbefore hhi hbetween hlo hrest =>
    rw [← List.append_assoc]
    exact .cons (h.append hbefore) hhi hbetween hlo hrest

/-- **One spelling behind another** spells the bytes of both. -/
theorem Spelling.append (h : Spelling text bytes) (hrest : Spelling rest others) :
    Spelling (text ++ rest) (bytes ++ others) := by
  induction h with
  | nil hgap => exact .of_gap hgap hrest
  | cons hbefore hhi hbetween hlo _ ih =>
    rw [List.append_assoc, List.cons_append, List.append_assoc, List.cons_append]
    exact .cons hbefore hhi hbetween hlo ih

/-- **A dump spells its bytes**: the gap behind each byte is one character. -/
theorem spelling_dump (bytes : List UInt8) : Spelling (dump bytes) bytes := by
  induction bytes using List.reverseRecOn with
  | nil => exact .nil .nil
  | append_singleton bytes byte ih =>
    have hseparator : Text.isBlank (dumpSeparator bytes.length) = true := by
      unfold dumpSeparator
      split
      · rfl
      · rfl
    rw [dump_append_singleton]
    apply ih.append
    show Spelling ([] ++ _ :: ([] ++ _ :: [dumpSeparator bytes.length])) [byte]
    exact .cons .nil (.inl rfl) .nil (.inl rfl) (.nil (.separator (.inl hseparator) .nil))

/-- **Bytes in lower case**, one behind another, spell themselves. -/
theorem spelling_flatMap_lowerPair (bytes : List UInt8) :
    Spelling (bytes.flatMap lowerPair) bytes := by
  induction bytes with
  | nil => exact .nil .nil
  | cons byte bytes ih =>
    show Spelling ([] ++ _ :: ([] ++ _ :: bytes.flatMap lowerPair)) (byte :: bytes)
    exact .cons .nil (.inr rfl) .nil (.inr rfl) ih

end Append

/-! ## Spellings are runs of tokens -/

section Runs

variable {text : List Char} {values : List (Fin 16)} {value : Fin 16} {bytes : List UInt8}

/-- No token opens with the letter of a mark. -/
theorem Scan.head?_ne (h : Scan text values []) :
    text.head? ≠ some 'x' ∧ text.head? ≠ some 'X' := by
  cases h with
  | nil => exact ⟨by simp, by simp⟩
  | @cons token run _ _ _ htoken _ =>
    have hopens : ∀ c, ¬StartsToken c → (token ++ run).head? ≠ some c := by
      intro c hc hhead
      cases token with
      | nil => exact absurd htoken.length_pos (by simp)
      | cons first rest =>
        rw [List.cons_append, List.head?_cons, Option.some.injEq] at hhead
        exact hc (hhead ▸ ⟨rest, _, _, htoken⟩)
    constructor
    · exact hopens 'x' (by rw [startsToken_iff]; decide)
    · exact hopens 'X' (by rw [startsToken_iff]; decide)

/-- A digit in front of a run of tokens is one more token. -/
theorem Scan.digit {c : Char} (hc : IsDigit c value) (h : Scan text values []) :
    Scan (c :: text) (value :: values) [] := by
  have htoken : Token [c] (some value) (text ++ []) := by
    apply Token.digit hc
    intro _
    rw [List.append_nil]
    exact h.head?_ne
  exact .cons htoken h

/-- A gap in front of a run of tokens adds no digit. -/
theorem Scan.of_gap {gap : List Char} (hgap : Gap gap) (h : Scan text values []) :
    Scan (gap ++ text) values [] := by
  induction hgap with
  | nil => exact h
  | separator hc _ ih => exact .cons (.separator _ hc) ih
  | mark hc _ ih => exact .cons (.mark _ hc) ih

/-- A run of tokens without a digit is a gap. -/
theorem Scan.gap (h : Scan text [] []) : Gap text := by
  generalize hvalues : ([] : List (Fin 16)) = values at h
  generalize hend : ([] : List Char) = following at h
  induction h with
  | nil => exact .nil
  | cons htoken _ ih =>
    cases htoken with
    | separator _ hc => exact .separator hc (ih hvalues hend)
    | mark _ hc => exact .mark hc (ih hvalues hend)
    | digit _ _ => cases hvalues

/-- **A run of tokens with a digit** is a gap, this digit, and a run with the other digits. -/
theorem Scan.exists_digit (h : Scan text (value :: values) []) :
    ∃ gap c rest, text = gap ++ c :: rest ∧ Gap gap ∧ IsDigit c value ∧ Scan rest values [] := by
  generalize hvalues : value :: values = all at h
  generalize hend : ([] : List Char) = following at h
  induction h with
  | nil => cases hvalues
  | cons htoken hrun ih =>
    cases htoken with
    | separator _ hc =>
      obtain ⟨gap, digit, rest, rfl, hgap, hdigit, hrest⟩ := ih hvalues hend
      exact ⟨_, digit, rest, rfl, .separator hc hgap, hdigit, hrest⟩
    | mark _ hc =>
      obtain ⟨gap, digit, rest, rfl, hgap, hdigit, hrest⟩ := ih hvalues hend
      exact ⟨_, digit, rest, rfl, .mark hc hgap, hdigit, hrest⟩
    | digit hc _ =>
      cases hvalues
      subst hend
      exact ⟨[], _, _, rfl, .nil, hc, hrun⟩

/-- **A spelling is a run of tokens** whose digits spell the bytes. -/
theorem Spelling.exists_scan (h : Spelling text bytes) :
    ∃ values, Scan text values [] ∧ Spells values bytes := by
  induction h with
  | nil hgap =>
    refine ⟨[], ?_, spells_nil_iff.mpr rfl⟩
    have hscan := Scan.of_gap hgap (.nil [])
    rwa [List.append_nil] at hscan
  | cons hbefore hhi hbetween hlo _ ih =>
    obtain ⟨values, hscan, hspells⟩ := ih
    refine ⟨_, .of_gap hbefore (.digit hhi (.of_gap hbetween (.digit hlo hscan))), ?_⟩
    rw [spells_cons_iff, byteOfHalves_halves]
    exact ⟨_, rfl, hspells⟩

theorem highHalf_byteOfHalves (hi lo : Fin 16) : highHalf (byteOfHalves hi lo) = hi := by
  apply Fin.ext
  show (byteOfHalves hi lo).toNat / 16 = hi.val
  rw [toNat_byteOfHalves]
  omega

theorem lowHalf_byteOfHalves (hi lo : Fin 16) : lowHalf (byteOfHalves hi lo) = lo := by
  apply Fin.ext
  show (byteOfHalves hi lo).toNat % 16 = lo.val
  rw [toNat_byteOfHalves]
  omega

/-- **A run of tokens whose digits spell bytes** is a spelling of them. -/
theorem spelling_of_scan (h : Scan text values []) (hspells : Spells values bytes) :
    Spelling text bytes := by
  -- by induction on the bytes, with the two digits of the first one in front
  induction bytes generalizing text values with
  | nil =>
    have hnone : values = [] := List.eq_nil_of_length_eq_zero hspells.length_eq
    subst hnone
    exact .nil h.gap
  | cons byte bytes ih =>
    obtain ⟨hi, lo, rest, rfl⟩ : ∃ hi lo rest, values = hi :: lo :: rest := by
      match values, hspells.length_eq with
      | hi :: lo :: rest, _ => exact ⟨hi, lo, rest, rfl⟩
    obtain ⟨_, hbytes, hrest⟩ := spells_cons_iff.mp hspells
    cases hbytes
    obtain ⟨before, c, afterHigh, rfl, hbefore, hc, hscan⟩ := h.exists_digit
    obtain ⟨between, d, afterLow, rfl, hbetween, hd, hscan⟩ := hscan.exists_digit
    refine .cons hbefore ?_ hbetween ?_ (ih hscan hrest)
    · rwa [highHalf_byteOfHalves]
    · rwa [lowHalf_byteOfHalves]

end Runs

/-! ## Reading spellings -/

/-- **Reading gives bytes exactly for the spellings of them**. -/
theorem parse_eq_ok_iff_spelling {text : List Char} {bytes : List UInt8} :
    parse text = .ok bytes ↔ Spelling text bytes := by
  rw [parse_eq_ok_iff]
  constructor
  · rintro ⟨values, hscan, hspells⟩
    exact spelling_of_scan hscan hspells
  · exact Spelling.exists_scan

/-- **Reading respects spellings**. Two texts that are read can be read as one, and give the bytes
of both; a dump is read as its bytes; and any text gives bytes exactly if it is a spelling of them,
with digits of either case and with blanks, commas and marks wherever these may stand. -/
theorem parse_spellings :
    (∀ text rest bytes others, parse text = .ok bytes → parse rest = .ok others →
      parse (text ++ rest) = .ok (bytes ++ others)) ∧
    (∀ bytes, parse (dump bytes) = .ok bytes) ∧
    ∀ text bytes, parse text = .ok bytes ↔ Spelling text bytes := by
  refine ⟨?_, ?_, fun _ _ => parse_eq_ok_iff_spelling⟩
  · intro text rest bytes others htext hrest
    rw [parse_eq_ok_iff_spelling] at htext hrest ⊢
    exact htext.append hrest
  · intro bytes
    exact parse_eq_ok_iff_spelling.mpr (spelling_dump bytes)

/-- A zero at the end of one text, and a mark at the start of the next. -/
theorem parse_spellings_zero_before_mark :
    parse ['1', ',', '0'] = .ok [0x10] ∧ parse ['0', 'X', '\u3000', 'c', '0'] = .ok [0xC0] ∧
      parse (['1', ',', '0'] ++ ['0', 'X', '\u3000', 'c', '0']) = .ok ([0x10] ++ [0xC0]) ∧
      Spelling ['0', 'X', '\u3000', 'c', '0'] [0xC0] := by
  have hfirst : parse ['1', ',', '0'] = .ok [0x10] := rfl
  have hsecond : parse ['0', 'X', '\u3000', 'c', '0'] = .ok [0xC0] := rfl
  refine ⟨hfirst, hsecond, ?_, ?_⟩
  · exact parse_spellings.1 _ _ _ _ hfirst hsecond
  · exact (parse_spellings.2.2 _ _).mp hsecond

end Bytecode.Hex
