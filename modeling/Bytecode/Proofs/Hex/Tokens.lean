import Bytecode.Hex.Scan

/-!
# The tokens of hex text

Hex text is a sequence of tokens: separators, marks, and digits. A zero is a digit or the first
half of a mark, and which of the two it is depends on the character behind it; so a run of tokens
is always looked at together with what follows it. Reading takes token after token. It fails only at
a character that opens no token, and then names this character and the number of characters before
it. Otherwise the digits are paired, and what is left to fail is that the last has no partner.

## Main definitions

* `Hex.Token`, `Hex.Scan`: a token in front of the rest of a text, and a run of them
* `Hex.StartsToken`: the characters that open a token
* `Hex.Spells`: digits that spell bytes, two for each

## Main results

* `Hex.digitsFrom_of_scan`: reading passes over a run of tokens and keeps the digits
* `Hex.exists_scan`: every text is a run of tokens up to its end, or to a character that opens none
* `Hex.digits_eq_ok_iff`, `Hex.digits_eq_error_iff`: the digits of a text, and why there are none
* `Hex.parse_reads_tokens`: the bytes of a text, and the two ways in which it has none
-/

namespace Bytecode.Hex

/-! ## Digits of either case -/

theorem ofNat_of_toNat {c : Char} {n : Nat} (h : c.toNat = n) : c = Char.ofNat n := by
  rw [← h, Char.ofNat_toNat]

/-- **A digit** is one of the two that are written for its value. -/
theorem digitValue?_eq_some_iff {c : Char} {value : Fin 16} :
    digitValue? c = some value ↔ c = upperDigit value ∨ c = lowerDigit value := by
  constructor
  · intro h
    simp only [digitValue?] at h
    split at h
    · cases h
      left
      rw [upperDigit, if_pos (by simp only [Fin.lt_def]; omega)]
      apply ofNat_of_toNat
      simp only
      omega
    · split at h
      · cases h
        right
        rw [lowerDigit, if_neg (by simp only [Fin.lt_def]; omega)]
        apply ofNat_of_toNat
        simp only
        omega
      · split at h
        · cases h
          left
          rw [upperDigit, if_neg (by simp only [Fin.lt_def]; omega)]
          apply ofNat_of_toNat
          simp only
          omega
        · cases h
  · rintro (rfl | rfl)
    · exact digitValue?_upperDigit value
    · exact digitValue?_lowerDigit value

/-! ## Tokens -/

section Tokens

/-- **A token**, with the digit that it is, if it is one. What follows it decides whether a zero is
a digit or opens a mark. -/
inductive Token : List Char → Option (Fin 16) → List Char → Prop
  | separator {c : Char} (following : List Char) (h : Text.isBlank c = true ∨ c = ',') :
      Token [c] none following
  | mark {c : Char} (following : List Char) (h : c = 'x' ∨ c = 'X') :
      Token ['0', c] none following
  | digit {c : Char} {value : Fin 16} {following : List Char}
      (h : c = upperDigit value ∨ c = lowerDigit value)
      (hmark : c = '0' → following.head? ≠ some 'x' ∧ following.head? ≠ some 'X') :
      Token [c] (some value) following

/-- **A run of tokens**, with its digits in order, in front of what follows it. -/
inductive Scan : List Char → List (Fin 16) → List Char → Prop
  | nil (following : List Char) : Scan [] [] following
  | cons {token run following : List Char} {found : Option (Fin 16)} {values : List (Fin 16)}
      (h : Token token found (run ++ following)) (hrun : Scan run values following) :
      Scan (token ++ run) (found.toList ++ values) following

/-- **A character that opens a token**, with some text behind it. -/
def StartsToken (c : Char) : Prop :=
  ∃ rest found following, Token (c :: rest) found following

theorem isSeparator_iff {c : Char} : isSeparator c = true ↔ Text.isBlank c = true ∨ c = ',' := by
  simp [isSeparator]

/-- Only separators and digits open a token; the zero of a mark is a digit too. -/
theorem startsToken_iff {c : Char} :
    StartsToken c ↔ isSeparator c = true ∨ (digitValue? c).isSome = true := by
  constructor
  · rintro ⟨rest, found, following, h⟩
    cases h with
    | separator _ h => exact .inl (isSeparator_iff.mpr h)
    | mark _ h => exact .inr rfl
    | digit h _ => exact .inr (by rw [digitValue?_eq_some_iff.mpr h]; rfl)
  · rintro (h | h)
    · exact ⟨[], none, [], .separator [] (isSeparator_iff.mp h)⟩
    · obtain ⟨value, hvalue⟩ := Option.isSome_iff_exists.mp h
      exact ⟨[], some value, [], .digit (digitValue?_eq_some_iff.mp hvalue) (by simp)⟩

theorem Token.length_pos {token following : List Char} {found : Option (Fin 16)}
    (h : Token token found following) : 0 < token.length := by
  cases h <;> simp

/-- A token stays one if only its text is kept, and nothing follows it. -/
theorem Token.of_prefix {token following : List Char} {found : Option (Fin 16)} (run : List Char)
    (h : Token token found (run ++ following)) : Token token found run := by
  cases h with
  | separator _ h => exact .separator run h
  | mark _ h => exact .mark run h
  | digit h hmark =>
    refine .digit h fun hzero => ?_
    cases run with
    | nil => simp
    | cons c rest => exact hmark hzero

/-- **A run of tokens stays one** if nothing follows it any more. -/
theorem Scan.of_prefix {run following : List Char} {values : List (Fin 16)}
    (h : Scan run values following) : Scan run values [] := by
  induction h with
  | nil following => exact .nil []
  | cons htoken _ ih =>
    refine .cons ?_ ih
    rw [List.append_nil]
    exact htoken.of_prefix

/-- A text that is not empty opens with a token, or with a character that opens none. -/
theorem token_or_not_startsToken (c : Char) (rest : List Char) :
    (∃ token found following, c :: rest = token ++ following ∧ Token token found following) ∨
      ¬StartsToken c := by
  by_cases hseparator : isSeparator c = true
  · exact .inl ⟨[c], none, rest, rfl, .separator rest (isSeparator_iff.mp hseparator)⟩
  cases hvalue : digitValue? c with
  | none => exact .inr (by rw [startsToken_iff, hvalue]; simpa using hseparator)
  | some value =>
    left
    -- a digit, unless it is the zero of a mark
    by_cases hmark : c = '0' ∧ (rest.head? = some 'x' ∨ rest.head? = some 'X')
    · obtain ⟨rfl, hsecond⟩ := hmark
      cases rest with
      | nil => simp at hsecond
      | cons second rest =>
        simp only [List.head?_cons, Option.some.injEq] at hsecond
        exact ⟨['0', second], none, rest, rfl, .mark rest hsecond⟩
    · refine ⟨[c], some value, rest, rfl, .digit (digitValue?_eq_some_iff.mp hvalue) ?_⟩
      intro hzero
      exact not_or.mp fun hsecond => hmark ⟨hzero, hsecond⟩

/-- **Every text is a run of tokens** up to its end, or to a character that opens none. -/
theorem exists_scan (text : List Char) :
    ∃ run values following, text = run ++ following ∧ Scan run values following ∧
      (following = [] ∨ ∃ c rest, following = c :: rest ∧ ¬StartsToken c) := by
  -- by induction on the length, since a mark takes two characters at once
  induction hn : text.length using Nat.strongRecOn generalizing text with
  | _ n ih =>
    cases text with
    | nil => exact ⟨[], [], [], rfl, .nil [], .inl rfl⟩
    | cons c rest =>
      rcases token_or_not_startsToken c rest with ⟨token, found, behind, htext, htoken⟩ | hstuck
      · have hpos := htoken.length_pos
        have hlt : behind.length < n := by
          rw [← hn, htext, List.length_append]
          omega
        obtain ⟨run, values, following, rfl, hrun, hend⟩ := ih behind.length hlt behind rfl
        refine ⟨token ++ run, found.toList ++ values, following, ?_, .cons htoken hrun, hend⟩
        rw [htext, List.append_assoc]
      · exact ⟨[], [], c :: rest, rfl, .nil _, .inr ⟨c, rest, rfl, hstuck⟩⟩

end Tokens

/-! ## Reading the digits -/

section Digits

theorem digitsFrom_cons {c : Char} {rest : List Char}
    (hmark : c = '0' → rest.head? ≠ some 'x' ∧ rest.head? ≠ some 'X') (position : Nat)
    (found : List (Fin 16)) :
    digitsFrom position found (c :: rest) =
      if isSeparator c then digitsFrom (position + 1) found rest
      else
        match digitValue? c with
        | some value => digitsFrom (position + 1) (value :: found) rest
        | none => .error (.invalidDigit c position) := by
  conv => lhs; unfold digitsFrom
  split
  · next h => cases h
  · next h =>
    cases h
    exact absurd rfl (hmark rfl).1
  · next h =>
    cases h
    exact absurd rfl (hmark rfl).2
  · next h =>
    cases h
    rfl

theorem isSeparator_eq_false_of_digit {c : Char} {value : Fin 16}
    (h : c = upperDigit value ∨ c = lowerDigit value) : isSeparator c = false := by
  rcases h with rfl | rfl
  · decide +revert
  · decide +revert

/-- **Reading passes over a token** and keeps its digit. -/
theorem digitsFrom_of_token {token following : List Char} {digit : Option (Fin 16)}
    (h : Token token digit following) (position : Nat) (found : List (Fin 16)) :
    digitsFrom position found (token ++ following) =
      digitsFrom (position + token.length) (digit.toList ++ found) following := by
  cases h with
  | @separator c _ h =>
    rw [List.singleton_append, digitsFrom_cons, if_pos (isSeparator_iff.mpr h)]
    · rfl
    · rintro rfl
      exact absurd h (by decide)
  | mark _ h =>
    rcases h with rfl | rfl
    · rfl
    · rfl
  | digit h hmark =>
    rw [List.singleton_append, digitsFrom_cons hmark, isSeparator_eq_false_of_digit h,
      digitValue?_eq_some_iff.mpr h]
    rfl

/-- **Reading passes over a run of tokens** and keeps its digits. -/
theorem digitsFrom_of_scan {run following : List Char} {values : List (Fin 16)}
    (h : Scan run values following) (position : Nat) (found : List (Fin 16)) :
    digitsFrom position found (run ++ following) =
      digitsFrom (position + run.length) (values.reverse ++ found) following := by
  induction h generalizing position found with
  | nil following => rfl
  | @cons token run following digit values htoken hrun ih =>
    rw [List.append_assoc, digitsFrom_of_token htoken, ih, List.length_append, Nat.add_assoc]
    cases digit with
    | none => rfl
    | some value => simp

theorem digitsFrom_of_not_startsToken {c : Char} (h : ¬StartsToken c) (rest : List Char)
    (position : Nat) (found : List (Fin 16)) :
    digitsFrom position found (c :: rest) = .error (.invalidDigit c position) := by
  rw [startsToken_iff, not_or] at h
  obtain ⟨hseparator, hdigit⟩ := h
  rw [digitsFrom_cons, if_neg hseparator, Option.not_isSome_iff_eq_none.mp hdigit]
  rintro rfl
  exact absurd rfl hdigit

/-- **A text has digits exactly if all of it is a run of tokens**, and these are its digits. -/
theorem digits_eq_ok_iff {text : List Char} {values : List (Fin 16)} :
    digits text = .ok values ↔ Scan text values [] := by
  constructor
  · intro h
    obtain ⟨run, values', following, rfl, hscan, rfl | ⟨c, rest, rfl, hstuck⟩⟩ := exists_scan text
    · rw [digits, digitsFrom_of_scan hscan, digitsFrom] at h
      simp only [List.append_nil, List.reverse_reverse, Except.ok.injEq] at h
      rw [← h, List.append_nil]
      exact hscan
    · rw [digits, digitsFrom_of_scan hscan, digitsFrom_of_not_startsToken hstuck] at h
      cases h
  · intro h
    have hread := digitsFrom_of_scan h 0 []
    rw [List.append_nil, List.append_nil, digitsFrom, List.reverse_reverse] at hread
    exact hread

/-- **A text has no digits exactly if a run of tokens ends at a character that opens none**. This
character is named, with the number of characters before it. -/
theorem digits_eq_error_iff {text : List Char} {e : HexError} :
    digits text = .error e ↔
      ∃ run values c rest, text = run ++ c :: rest ∧ Scan run values (c :: rest) ∧
        ¬StartsToken c ∧ e = .invalidDigit c run.length := by
  have hread {run rest : List Char} {values : List (Fin 16)} {c : Char}
      (hscan : Scan run values (c :: rest)) (hstuck : ¬StartsToken c) :
      digits (run ++ c :: rest) = .error (.invalidDigit c run.length) := by
    rw [digits, digitsFrom_of_scan hscan, digitsFrom_of_not_startsToken hstuck, Nat.zero_add]
  constructor
  · intro h
    obtain ⟨run, values, following, rfl, hscan, rfl | ⟨c, rest, rfl, hstuck⟩⟩ := exists_scan text
    · rw [List.append_nil, digits_eq_ok_iff.mpr hscan] at h
      cases h
    · rw [hread hscan hstuck] at h
      cases h
      exact ⟨run, values, c, rest, rfl, hscan, hstuck, rfl⟩
  · rintro ⟨run, values, c, rest, rfl, hscan, hstuck, rfl⟩
    exact hread hscan hstuck

end Digits

/-! ## Pairing the digits -/

section Pairs

/-- **Digits spell bytes**: there are two for each byte, the high half first. -/
structure Spells (values : List (Fin 16)) (bytes : List UInt8) : Prop where
  length_eq : values.length = 2 * bytes.length
  halves : ∀ place byte, bytes[place]? = some byte → ∃ hi lo,
    values[2 * place]? = some hi ∧ values[2 * place + 1]? = some lo ∧
      byte.toNat = 16 * hi.val + lo.val

theorem toNat_byteOfHalves (hi lo : Fin 16) :
    (byteOfHalves hi lo).toNat = 16 * hi.val + lo.val := by
  rw [byteOfHalves, UInt8.toNat_ofNat']
  omega

theorem spells_cons_iff {hi lo : Fin 16} {values : List (Fin 16)} {bytes : List UInt8} :
    Spells (hi :: lo :: values) bytes ↔
      ∃ rest, bytes = byteOfHalves hi lo :: rest ∧ Spells values rest := by
  constructor
  · rintro ⟨hlength, hhalves⟩
    cases bytes with
    | nil => simp at hlength
    | cons byte rest =>
      refine ⟨rest, ?_, by simpa [Nat.mul_add] using hlength, fun place byte hbyte => ?_⟩
      · obtain ⟨_, _, hhi, hlo, hbyte⟩ := hhalves 0 byte rfl
        cases hhi
        cases hlo
        rw [UInt8.toNat_inj.mp (hbyte.trans (toNat_byteOfHalves hi lo).symm)]
      · exact hhalves (place + 1) byte hbyte
  · rintro ⟨rest, rfl, hlength, hhalves⟩
    refine ⟨by simp [hlength, Nat.mul_add], fun place byte hbyte => ?_⟩
    cases place with
    | zero =>
      cases hbyte
      exact ⟨hi, lo, rfl, rfl, toNat_byteOfHalves hi lo⟩
    | succ place => exact hhalves place byte hbyte

theorem spells_nil_iff {bytes : List UInt8} : Spells [] bytes ↔ bytes = [] := by
  constructor
  · rintro ⟨hlength, -⟩
    cases bytes with
    | nil => rfl
    | cons byte rest => simp at hlength
  · rintro rfl
    exact ⟨rfl, by simp⟩

theorem not_spells_singleton (value : Fin 16) (bytes : List UInt8) : ¬Spells [value] bytes := by
  rintro ⟨hlength, -⟩
  rw [List.length_singleton] at hlength
  omega

/-- **Pairing gives the bytes that are spelled**, behind those found before. -/
theorem pairFrom_eq_some_iff (found : List UInt8) {values : List (Fin 16)} {all : List UInt8} :
    pairFrom found values = some all ↔
      ∃ bytes, all = found.reverse ++ bytes ∧ Spells values bytes := by
  fun_induction pairFrom found values with
  | case1 found =>
    simp only [spells_nil_iff, exists_eq_right, List.append_nil, Option.some.injEq]
    exact eq_comm
  | case2 found value => simp [not_spells_singleton]
  | case3 found hi lo rest ih =>
    rw [ih]
    simp only [spells_cons_iff, List.reverse_cons, List.append_assoc, List.singleton_append]
    constructor
    · rintro ⟨bytes, rfl, hbytes⟩
      exact ⟨_, rfl, bytes, rfl, hbytes⟩
    · rintro ⟨_, rfl, bytes, rfl, hbytes⟩
      exact ⟨bytes, rfl, hbytes⟩

/-- **Pairing fails exactly** if the number of digits is odd. -/
theorem pairFrom_eq_none_iff (found : List UInt8) {values : List (Fin 16)} :
    pairFrom found values = none ↔ values.length % 2 = 1 := by
  fun_induction pairFrom found values with
  | case1 found => simp
  | case2 found value => simp
  | case3 found hi lo rest ih =>
    rw [ih]
    simp only [List.length_cons]
    omega

end Pairs

/-! ## Reading the bytes -/

section Bytes

variable {text : List Char} {values : List (Fin 16)}

theorem parse_of_spells {bytes : List UInt8} (h : Scan text values [])
    (hbytes : Spells values bytes) : parse text = .ok bytes := by
  have hpairs : pairFrom [] values = some bytes :=
    (pairFrom_eq_some_iff []).mpr ⟨bytes, rfl, hbytes⟩
  simp only [parse, digits_eq_ok_iff.mpr h, bind, Except.bind, hpairs]
  rfl

theorem parse_of_odd (h : Scan text values []) (hodd : values.length % 2 = 1) :
    parse text = .error (.oddLength values.length) := by
  have hpairs : pairFrom [] values = none := (pairFrom_eq_none_iff []).mpr hodd
  simp only [parse, digits_eq_ok_iff.mpr h, bind, Except.bind, hpairs]
  rfl

theorem parse_of_not_startsToken {run rest : List Char} {c : Char}
    (h : Scan run values (c :: rest)) (hstuck : ¬StartsToken c) :
    parse (run ++ c :: rest) = .error (.invalidDigit c run.length) := by
  rw [parse, digits_eq_error_iff.mpr ⟨run, values, c, rest, rfl, h, hstuck, rfl⟩]
  rfl

/-- Digits spell bytes, unless their number is odd. -/
theorem spells_or_odd (values : List (Fin 16)) :
    (∃ bytes, Spells values bytes) ∨ values.length % 2 = 1 := by
  cases hpairs : pairFrom [] values with
  | none => exact .inr ((pairFrom_eq_none_iff []).mp hpairs)
  | some bytes =>
    obtain ⟨bytes, -, hbytes⟩ := (pairFrom_eq_some_iff []).mp hpairs
    exact .inl ⟨bytes, hbytes⟩

/-- **The ends of reading**: all of the text is a run of tokens, with an even or an odd number of
digits, or a run of tokens ends at a character that opens none. -/
theorem parse_cases (text : List Char) :
    (∃ values bytes, Scan text values [] ∧ Spells values bytes ∧ parse text = .ok bytes) ∨
    (∃ values, Scan text values [] ∧ values.length % 2 = 1 ∧
      parse text = .error (.oddLength values.length)) ∨
    ∃ run values c rest, text = run ++ c :: rest ∧ Scan run values (c :: rest) ∧
      ¬StartsToken c ∧ parse text = .error (.invalidDigit c run.length) := by
  obtain ⟨run, values, following, rfl, hscan, rfl | ⟨c, rest, rfl, hstuck⟩⟩ := exists_scan text
  · rw [List.append_nil]
    rcases spells_or_odd values with ⟨bytes, hbytes⟩ | hodd
    · exact .inl ⟨values, bytes, hscan, hbytes, parse_of_spells hscan hbytes⟩
    · exact .inr (.inl ⟨values, hscan, hodd, parse_of_odd hscan hodd⟩)
  · exact .inr (.inr ⟨run, values, c, rest, rfl, hscan, hstuck,
      parse_of_not_startsToken hscan hstuck⟩)

theorem parse_eq_ok_iff {bytes : List UInt8} :
    parse text = .ok bytes ↔ ∃ values, Scan text values [] ∧ Spells values bytes := by
  constructor
  · intro h
    rcases parse_cases text with
      ⟨values, bytes', hscan, hbytes, hparse⟩ | ⟨_, _, _, hparse⟩ | ⟨_, _, _, _, _, _, _, hparse⟩
    all_goals
      rw [hparse] at h
      cases h
    exact ⟨values, hscan, hbytes⟩
  · rintro ⟨values, hscan, hbytes⟩
    exact parse_of_spells hscan hbytes

theorem parse_eq_oddLength_iff {count : Nat} :
    parse text = .error (.oddLength count) ↔
      ∃ values, Scan text values [] ∧ values.length = count ∧ count % 2 = 1 := by
  constructor
  · intro h
    rcases parse_cases text with
      ⟨_, _, _, _, hparse⟩ | ⟨values, hscan, hodd, hparse⟩ | ⟨_, _, _, _, _, _, _, hparse⟩
    all_goals
      rw [hparse] at h
      cases h
    exact ⟨values, hscan, rfl, hodd⟩
  · rintro ⟨values, hscan, rfl, hodd⟩
    exact parse_of_odd hscan hodd

theorem parse_eq_invalidDigit_iff {c : Char} {position : Nat} :
    parse text = .error (.invalidDigit c position) ↔
      ∃ run values rest, text = run ++ c :: rest ∧ run.length = position ∧
        Scan run values (c :: rest) ∧ ¬StartsToken c := by
  constructor
  · intro h
    rcases parse_cases text with
      ⟨_, _, _, _, hparse⟩ | ⟨_, _, _, hparse⟩ |
      ⟨run, values, _, rest, htext, hscan, hstuck, hparse⟩
    all_goals
      rw [hparse] at h
      cases h
    exact ⟨run, values, rest, htext, rfl, hscan, hstuck⟩
  · rintro ⟨run, values, rest, rfl, rfl, hscan, hstuck⟩
    exact parse_of_not_startsToken hscan hstuck

/-- A text that is a run of tokens up to its end has no character at fault. -/
theorem Scan.parse_eq (h : Scan text values []) :
    (∃ bytes, parse text = .ok bytes) ∨ ∃ count, parse text = .error (.oddLength count) := by
  rcases spells_or_odd values with ⟨bytes, hbytes⟩ | hodd
  · exact .inl ⟨bytes, parse_of_spells h hbytes⟩
  · exact .inr ⟨values.length, parse_of_odd h hodd⟩

/-- **Hex text is read token by token**. It has bytes exactly if all of it is a run of tokens with
an even number of digits, and then two digits spell each byte. If all of it is a run of tokens and
the number of digits is odd, then this number is reported. Otherwise the first character that opens
no token is, and the tokens before it are nowhere at fault. -/
theorem parse_reads_tokens (text : List Char) :
    (∀ bytes, parse text = .ok bytes ↔ ∃ values, Scan text values [] ∧ Spells values bytes) ∧
    ((∃ bytes, parse text = .ok bytes) ↔
      ∃ values, Scan text values [] ∧ values.length % 2 = 0) ∧
    (∀ count, parse text = .error (.oddLength count) ↔
      ∃ values, Scan text values [] ∧ values.length = count ∧ count % 2 = 1) ∧
    ((∃ c position, parse text = .error (.invalidDigit c position)) ↔
      ¬∃ values, Scan text values []) ∧
    ∀ c position, parse text = .error (.invalidDigit c position) →
      text[position]? = some c ∧ ¬StartsToken c ∧
      (∃ values, Scan (text.take position) values (text.drop position)) ∧
      ((∃ bytes, parse (text.take position) = .ok bytes) ∨
        ∃ count, parse (text.take position) = .error (.oddLength count)) := by
  refine ⟨fun _ => parse_eq_ok_iff, ?_, fun _ => parse_eq_oddLength_iff, ?_, ?_⟩
  · constructor
    · rintro ⟨bytes, h⟩
      obtain ⟨values, hscan, hbytes⟩ := parse_eq_ok_iff.mp h
      exact ⟨values, hscan, by have := hbytes.length_eq; omega⟩
    · rintro ⟨values, hscan, heven⟩
      rcases spells_or_odd values with ⟨bytes, hbytes⟩ | hodd
      · exact ⟨bytes, parse_of_spells hscan hbytes⟩
      · omega
  · constructor
    · rintro ⟨c, position, h⟩ ⟨values, hscan⟩
      rcases hscan.parse_eq with ⟨_, hparse⟩ | ⟨_, hparse⟩
      all_goals
        rw [hparse] at h
        cases h
    · intro hscan
      rcases parse_cases text with
        ⟨values, _, h, _⟩ | ⟨values, h, _⟩ | ⟨run, _, c, _, _, _, _, hparse⟩
      · exact absurd ⟨values, h⟩ hscan
      · exact absurd ⟨values, h⟩ hscan
      · exact ⟨c, run.length, hparse⟩
  · intro c position h
    obtain ⟨run, values, rest, rfl, rfl, hscan, hstuck⟩ := parse_eq_invalidDigit_iff.mp h
    rw [List.take_left, List.drop_left]
    exact ⟨by simp, hstuck, ⟨values, hscan⟩, hscan.of_prefix.parse_eq⟩

/-- Behind a wide space and a mark stands a letter that is no digit. The one digit before it has no
partner, and that is not what is reported. -/
theorem parse_reads_tokens_letter :
    parse ['1', '\u3000', '0', 'x', 'é', '2'] = .error (.invalidDigit 'é' 4) ∧
      ¬StartsToken 'é' ∧
      ((∃ bytes, parse ['1', '\u3000', '0', 'x'] = .ok bytes) ∨
        ∃ count, parse ['1', '\u3000', '0', 'x'] = .error (.oddLength count)) := by
  have h : parse ['1', '\u3000', '0', 'x', 'é', '2'] = .error (.invalidDigit 'é' 4) := rfl
  obtain ⟨-, hstuck, -, hbefore⟩ := (parse_reads_tokens _).2.2.2.2 'é' 4 h
  exact ⟨h, hstuck, hbefore⟩

end Bytes

end Bytecode.Hex
