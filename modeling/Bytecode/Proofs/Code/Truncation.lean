import Bytecode.Proofs.Code.Decoding

/-!
# Arrays that end too soon

A read that runs out of bytes has been told by the bytes before it how many it needs. The bytes that
are there are not looked at, so they play no part: an array ends too soon at an offset exactly if
the array that is cut off there does, and what follows is fewer bytes than are needed. Hence it can
be said how many more bytes have to be put behind an array before the read finds what it needs.

## Main definitions

* `Code.LacksBytes`: the number of bytes that have to be put behind an array

## Main results

* `Instruction.Refusal.exists_lead`: the bytes before a read that runs out
* `Code.decode_eq_unexpectedEnd_iff`: an array ends too soon as it does when cut off
* `Code.lacksBytes_of_unexpectedEnd`: the bytes lacking are those needed less those available
-/

namespace Bytecode

/-- **The bytes before a read that runs out** tell how many it needs, and it runs out in the same
way behind them whatever fewer bytes follow. -/
theorem Instruction.Refusal.exists_lead {allowWide : Bool} {position : Nat} {rest : List UInt8}
    {offset needed available : Nat} (hrest : rest ≠ [])
    (h : Refusal allowWide position rest (.unexpectedEnd offset needed available)) :
    ∃ lead run, rest = lead ++ run ∧ lead ≠ [] ∧ position + lead.length = offset ∧
      run.length = available ∧ available < needed ∧ needed ≤ 2 ∧
      ∀ others : List UInt8, others.length < needed →
        Refusal allowWide position (lead ++ others)
          (.unexpectedEnd offset needed others.length) := by
  cases h with
  | nothing => exact absurd rfl hrest
  | markAtEnd hwide =>
    refine ⟨[Opcode.wide.toByte], [], rfl, List.cons_ne_nil _ _, rfl, rfl, Nat.one_pos, by decide,
      fun others hothers => ?_⟩
    -- one byte is needed, so that fewer are none
    obtain rfl : others = [] := List.eq_nil_of_length_eq_zero (Nat.lt_one_iff.mp hothers)
    exact .markAtEnd hwide
  | @truncated head run hhead hrun =>
    refine ⟨head.bytes, run, rfl, ?_, rfl, rfl, hrun, head.operandLength_le,
      fun others hothers => .truncated hhead hothers⟩
    rw [← List.length_pos_iff, head.length_bytes]
    split
    · exact Nat.two_pos
    · exact Nat.one_pos

namespace Code

variable {options : DecodeOptions} {bytes : List UInt8} {offset needed available : Nat}

/-- **The bytes before the read that runs out**, in an array that ends too soon. -/
theorem exists_lead_of_unexpectedEnd
    (h : decode options bytes = .error (.unexpectedEnd offset needed available)) :
    ∃ lead run, bytes = lead ++ run ∧ lead ≠ [] ∧ lead.length = offset ∧ run.length = available ∧
      available < needed ∧ needed ≤ 2 ∧
      ∀ others : List UInt8, others.length < needed →
        (lead ++ others).length ≤ options.maxCodeLength →
        decode options (lead ++ others) =
          .error (.unexpectedEnd offset needed others.length) := by
  rcases decode_eq_error_iff.mp h with
    ⟨-, hcause⟩ | ⟨-, instructions, rest, hadmitted, rfl, hrest, hrefusal⟩
  · -- an array that is too long is refused in another way
    cases hcause
  -- the read that runs out is one of the instruction behind those that were read
  obtain ⟨lead, run, rfl, hlead, hoffset, hrun, hshort, hneeded, hothers⟩ :=
    hrefusal.exists_lead hrest
  refine ⟨instructions.flatMap Instruction.bytes ++ lead, run, (List.append_assoc _ _ _).symm,
    List.append_ne_nil_of_right_ne_nil _ hlead, ?_, hrun, hshort, hneeded,
    fun others hfewer hlength => ?_⟩
  · rw [List.length_append]
    exact hoffset
  · rw [List.append_assoc] at hlength ⊢
    exact decode_of_refusal hadmitted hlength (List.append_ne_nil_of_left_ne_nil hlead others)
      (hothers others hfewer)

/-- **An array ends too soon as it does when cut off** before the read that runs out, if fewer bytes
follow there than are needed. -/
theorem decode_eq_unexpectedEnd_iff (hlength : bytes.length ≤ options.maxCodeLength) :
    decode options bytes = .error (.unexpectedEnd offset needed available) ↔
      decode options (bytes.take offset) = .error (.unexpectedEnd offset needed 0) ∧
        offset + available = bytes.length ∧ available < needed := by
  constructor
  · intro h
    obtain ⟨lead, run, rfl, -, rfl, rfl, hshort, -, hothers⟩ := exists_lead_of_unexpectedEnd h
    rw [List.length_append] at hlength
    have hcut := hothers [] (Nat.zero_lt_of_lt hshort) (by rw [List.append_nil]; omega)
    rw [List.append_nil] at hcut
    rw [List.take_left]
    exact ⟨hcut, List.length_append.symm, hshort⟩
  · rintro ⟨hcut, hend, hshort⟩
    obtain ⟨lead, run, htake, -, hoffset, hrun, -, -, hothers⟩ := exists_lead_of_unexpectedEnd hcut
    obtain rfl : run = [] := List.eq_nil_of_length_eq_zero hrun
    rw [List.append_nil] at htake
    -- what was cut off are the available bytes
    have havailable : (bytes.drop offset).length = available := by
      rw [List.length_drop]
      omega
    have hbytes : lead ++ bytes.drop offset = bytes := by
      rw [← htake, List.take_append_drop]
    have herror := hothers (bytes.drop offset) (by rwa [havailable]) (by rwa [hbytes])
    rwa [hbytes, havailable] at herror

/-- **An array lacks bytes** for the read at an offset: the read runs out as long as fewer bytes are
put behind the array, as far as its length may grow. -/
def LacksBytes (options : DecodeOptions) (bytes : List UInt8) (offset lacking : Nat) : Prop :=
  ∀ more : List UInt8, (bytes ++ more).length ≤ options.maxCodeLength →
    ((∃ needed available,
        decode options (bytes ++ more) = .error (.unexpectedEnd offset needed available)) ↔
      more.length < lacking)

/-- **The bytes lacking** are those needed less those available. -/
theorem lacksBytes_of_unexpectedEnd
    (h : decode options bytes = .error (.unexpectedEnd offset needed available)) :
    LacksBytes options bytes offset (needed - available) := by
  intro more hlength
  rw [List.length_append] at hlength
  obtain ⟨hcut, hend, hshort⟩ := (decode_eq_unexpectedEnd_iff (by omega)).mp h
  have htake : (bytes ++ more).take offset = bytes.take offset :=
    List.take_append_of_le_length (by omega)
  constructor
  · rintro ⟨needed', available', hmore⟩
    rw [decode_eq_unexpectedEnd_iff (by rwa [List.length_append]), htake, hcut,
      List.length_append] at hmore
    -- the same bytes stand before the read, so it needs as many
    obtain ⟨hsame, hend', hshort'⟩ := hmore
    cases hsame
    omega
  · intro hfewer
    refine ⟨needed, available + more.length, ?_⟩
    rw [decode_eq_unexpectedEnd_iff (by rwa [List.length_append]), htake, List.length_append]
    exact ⟨hcut, by omega, by omega⟩

end Code

end Bytecode
