import Bytecode.Proofs.Instruction.Stream
import Bytecode.Proofs.Statistics.Totals

/-!
# The ranking of opcodes

Counts by opcode are kept as in a map: an opcode has one entry, and the entries may be gone through
in any order. The ranking does not show this order. Of two entries at least one ranks before the
other, and both do only if they are the same entry; so there is one way to put entries in order,
whatever the order they came in.

## Main definitions

* `Tally.Outranks`: an entry stands strictly before another in a ranking
* `Tally.Kept`: an opcode has at most one entry, and has been seen if it has one

## Main results

* `Tally.ranking_eq_of_perm`: the order of the entries makes no difference to the ranking
* `Tally.Kept.bump`: one more sight keeps the entries apart
* `Tally.Kept.mem_iff_count`: the entries are the counts that are not zero
* `Statistics.ranking_of_visited`: the ranking after any code visited
-/

namespace Bytecode

namespace Tally

variable {tally entries : Tally}

/-! ## The order of a ranking -/

section Order

variable {a b c : Opcode × Nat}

/-- **An entry outranks another**: its count is greater, or of equal counts its opcode is the
smaller one. -/
def Outranks (a b : Opcode × Nat) : Prop :=
  b.2 < a.2 ∨ a.2 = b.2 ∧ a.1.toByte < b.1.toByte

theorem rankedBefore_iff :
    rankedBefore a b = true ↔ b.2 < a.2 ∨ a.2 = b.2 ∧ a.1.toByte ≤ b.1.toByte := by
  simp [rankedBefore]

theorem rankedBefore_trans (hab : rankedBefore a b = true) (hbc : rankedBefore b c = true) :
    rankedBefore a c = true := by
  rw [rankedBefore_iff] at *
  rcases hab with hab | ⟨hab, habByte⟩
  · left
    omega
  · rcases hbc with hbc | ⟨hbc, hbcByte⟩
    · left
      omega
    · exact .inr ⟨hab.trans hbc, UInt8.le_trans habByte hbcByte⟩

theorem rankedBefore_total (a b : Opcode × Nat) :
    rankedBefore a b = true ∨ rankedBefore b a = true := by
  rw [rankedBefore_iff, rankedBefore_iff]
  rcases Nat.lt_trichotomy a.2 b.2 with hlt | heq | hgt
  · exact .inr (.inl hlt)
  · rcases UInt8.le_total a.1.toByte b.1.toByte with hle | hle
    · exact .inl (.inr ⟨heq, hle⟩)
    · exact .inr (.inr ⟨heq.symm, hle⟩)
  · exact .inl (.inl hgt)

/-- Two entries that rank before each other are the same, since opcodes have different bytes. -/
theorem rankedBefore_antisymm (hab : rankedBefore a b = true) (hba : rankedBefore b a = true) :
    a = b := by
  rw [rankedBefore_iff] at hab hba
  obtain ⟨hcount, hle⟩ : a.2 = b.2 ∧ a.1.toByte ≤ b.1.toByte := hab.resolve_left (by omega)
  have hge : b.1.toByte ≤ a.1.toByte := (hba.resolve_left (by omega)).2
  exact Prod.ext (Opcode.toByte_injective (UInt8.le_antisymm hle hge)) hcount

theorem outranks_of_rankedBefore (h : rankedBefore a b = true) (hne : a.1 ≠ b.1) :
    Outranks a b := by
  rcases rankedBefore_iff.mp h with hlt | ⟨heq, hle⟩
  · exact .inl hlt
  · refine .inr ⟨heq, UInt8.lt_of_le_of_ne hle fun hbyte => hne ?_⟩
    exact Opcode.toByte_injective hbyte

theorem ranking_perm (tally : Tally) : (ranking tally).Perm tally :=
  List.mergeSort_perm tally rankedBefore

theorem pairwise_rankedBefore_ranking (tally : Tally) :
    (ranking tally).Pairwise fun a b => rankedBefore a b = true := by
  apply List.pairwise_mergeSort
  · intro a b c
    exact rankedBefore_trans
  · intro a b
    rw [Bool.or_eq_true]
    exact rankedBefore_total a b

/-- **The order of the entries makes no difference** to their ranking. -/
theorem ranking_eq_of_perm (h : entries.Perm tally) : ranking entries = ranking tally :=
  List.Perm.eq_of_pairwise (fun _ _ _ _ => rankedBefore_antisymm)
    (pairwise_rankedBefore_ranking entries) (pairwise_rankedBefore_ranking tally)
    ((ranking_perm entries).trans (h.trans (ranking_perm tally).symm))

end Order

/-! ## Entries that are kept apart -/

section Kept

/-- **A tally is kept**: an opcode has at most one entry, and has been seen if it has one. -/
structure Kept (tally : Tally) : Prop where
  distinct : (tally.map Prod.fst).Nodup
  pos : ∀ entry ∈ tally, 0 < entry.2

theorem kept_nil : Kept [] := ⟨List.nodup_nil, nofun⟩

theorem mem_map_fst_bump {bumped opcode : Opcode} :
    opcode ∈ (bump bumped tally).map Prod.fst ↔
      opcode = bumped ∨ opcode ∈ tally.map Prod.fst := by
  induction tally with
  | nil => simp [bump]
  | cons entry rest ih =>
    by_cases hseen : entry.1 = bumped
    · simp [bump, hseen]
    · rw [bump, if_neg hseen, List.map_cons, List.mem_cons, ih, List.map_cons, List.mem_cons]
      exact or_left_comm

/-- **One more sight** keeps the entries apart. -/
theorem Kept.bump (h : tally.Kept) (opcode : Opcode) : (tally.bump opcode).Kept := by
  obtain ⟨hdistinct, hpos⟩ := h
  induction tally with
  | nil => exact ⟨by simp [Tally.bump], by simp [Tally.bump]⟩
  | cons entry rest ih =>
    obtain ⟨hfirst, hrest⟩ := List.nodup_cons.mp hdistinct
    obtain ⟨hentry, hothers⟩ := List.forall_mem_cons.mp hpos
    by_cases hseen : entry.1 = opcode
    · rw [Tally.bump, if_pos hseen]
      exact ⟨hdistinct, List.forall_mem_cons.mpr ⟨Nat.succ_pos _, hothers⟩⟩
    · obtain ⟨hdistinct', hpos'⟩ := ih hrest hothers
      rw [Tally.bump, if_neg hseen]
      refine ⟨List.nodup_cons.mpr ⟨?_, hdistinct'⟩, List.forall_mem_cons.mpr ⟨hentry, hpos'⟩⟩
      -- what is new behind the first entry is not its opcode
      rw [mem_map_fst_bump]
      exact not_or.mpr ⟨hseen, hfirst⟩

theorem sum_counts_bump (tally : Tally) (opcode : Opcode) :
    ((tally.bump opcode).map Prod.snd).sum = (tally.map Prod.snd).sum + 1 := by
  induction tally with
  | nil => rfl
  | cons entry rest ih =>
    by_cases hseen : entry.1 = opcode
    · simp only [bump, if_pos hseen, List.map_cons, List.sum_cons]
      omega
    · simp only [bump, if_neg hseen, List.map_cons, List.sum_cons, ih]
      omega

theorem count_of_not_mem {opcode : Opcode} (h : opcode ∉ tally.map Prod.fst) :
    count tally opcode = 0 := by
  induction tally with
  | nil => rfl
  | cons entry rest ih =>
    rw [List.map_cons, List.mem_cons, not_or] at h
    obtain ⟨hne, hrest⟩ := h
    rw [count_cons, if_neg (Ne.symm hne), ih hrest]

/-- **The entries of a tally** are the counts that are not zero. -/
theorem Kept.mem_iff_count (h : tally.Kept) {opcode : Opcode} {n : Nat} :
    (opcode, n) ∈ tally ↔ n ≠ 0 ∧ n = count tally opcode := by
  obtain ⟨hdistinct, hpos⟩ := h
  induction tally with
  | nil => simp
  | cons entry rest ih =>
    obtain ⟨hfirst, hrest⟩ := List.nodup_cons.mp hdistinct
    obtain ⟨hentry, hothers⟩ := List.forall_mem_cons.mp hpos
    obtain ⟨seen, k⟩ := entry
    rw [List.mem_cons, ih hrest hothers, count_cons]
    by_cases hseen : seen = opcode
    -- the first entry is the only one of its opcode, so those behind it count nothing
    · subst hseen
      simp only [count_of_not_mem hfirst, if_true, Prod.mk.injEq, true_and]
      have : 0 < k := hentry
      omega
    · have hne : (opcode, n) ≠ (seen, k) := fun heq => hseen (Prod.mk.inj heq).1.symm
      rw [if_neg hseen, or_iff_right hne]

/-- In a ranking of entries kept apart, each entry outranks those behind it. -/
theorem Kept.pairwise_outranks_ranking (h : tally.Kept) : (ranking tally).Pairwise Outranks := by
  have hdistinct : (ranking tally).Pairwise fun a b => a.1 ≠ b.1 :=
    List.pairwise_map.mp (((ranking_perm tally).map Prod.fst).nodup_iff.mpr h.distinct)
  refine ((pairwise_rankedBefore_ranking tally).and hdistinct).imp ?_
  rintro a b ⟨hbefore, hne⟩
  exact outranks_of_rankedBefore hbefore hne

end Kept

end Tally

namespace Statistics

/-! ## The tally of what was visited -/

theorem tally_addInstruction (stats : Statistics) (instruction : Instruction) :
    (stats.addInstruction instruction).tally = stats.tally.bump instruction.opcode := by
  cases instruction <;> rfl

/-- **What was visited is kept in the tally**, and its counts add up to the number of
instructions. -/
theorem kept_foldl (visited : List Instruction) :
    (visited.foldl addInstruction {}).tally.Kept ∧
      ((visited.foldl addInstruction {}).tally.map Prod.snd).sum = visited.length := by
  induction visited using List.reverseRecOn with
  | nil => exact ⟨Tally.kept_nil, rfl⟩
  | append_singleton visited instruction ih =>
    obtain ⟨hkept, hsum⟩ := ih
    rw [List.foldl_concat, tally_addInstruction]
    refine ⟨hkept.bump instruction.opcode, ?_⟩
    rw [Tally.sum_counts_bump, hsum, List.length_append, List.length_singleton]

/-- **The ranking after any code visited** is the same list for every order in which the entries of
the tally may be given. It has the opcodes whose count is not zero, each once with its count; every
entry outranks those behind it; the counts add up to the number of instructions; and the mark
`wide` is not among them, since it opens no instruction. -/
theorem ranking_of_visited (codes : List Code) (entries : Tally)
    (h : entries.Perm (codes.foldl add {}).tally) :
    Tally.ranking entries = Tally.ranking (codes.foldl add {}).tally ∧
      (∀ opcode n, (opcode, n) ∈ Tally.ranking entries ↔
        n ≠ 0 ∧ n = Tally.count (codes.foldl add {}).tally opcode) ∧
      ((Tally.ranking entries).map Prod.fst).Nodup ∧
      (Tally.ranking entries).Pairwise Tally.Outranks ∧
      ((Tally.ranking entries).map Prod.snd).sum = (codes.foldl add {}).instructions ∧
      ∀ n, (Opcode.wide, n) ∉ Tally.ranking entries := by
  have hdescribe : (codes.foldl add {}).Describe (codes.flatMap Code.instructions) := by
    rw [foldl_add_eq_foldl]
    exact describe_foldl _
  obtain ⟨hkept, hsum⟩ := kept_foldl (codes.flatMap Code.instructions)
  rw [← foldl_add_eq_foldl] at hkept hsum
  have hmem : ∀ opcode n, (opcode, n) ∈ Tally.ranking (codes.foldl add {}).tally ↔
      n ≠ 0 ∧ n = Tally.count (codes.foldl add {}).tally opcode := fun opcode n =>
    (Tally.ranking_perm _).mem_iff.trans hkept.mem_iff_count
  rw [Tally.ranking_eq_of_perm h]
  refine ⟨rfl, hmem, ?_, hkept.pairwise_outranks_ranking, ?_, fun n hwide => ?_⟩
  · exact ((Tally.ranking_perm _).map Prod.fst).nodup_iff.mpr hkept.distinct
  · rw [((Tally.ranking_perm _).map Prod.snd).sum_nat, hsum, hdescribe.instructions]
  · obtain ⟨hne, rfl⟩ := (hmem .wide n).mp hwide
    rw [hdescribe.count, ne_eq, List.countP_eq_zero] at hne
    refine hne fun instruction _ => ?_
    simpa using instruction.opcode_ne_wide

/-- Two pieces of code with equal counts among theirs, and the entries of their tally in another
order. -/
theorem ranking_of_visited_ties :
    Tally.ranking [(.bipush, 1), (.fstore, 2), (.iconst2, 2), (.ldc, 1)] =
        [(.iconst2, 2), (.fstore, 2), (.bipush, 1), (.ldc, 1)] ∧
      List.Perm [(.bipush, 1), (.fstore, 2), (.iconst2, 2), (.ldc, 1)]
        ([Code.ofInstructions [.ldc (.short 3), .fstore (.wide 9), .iconst .two],
          Code.ofInstructions [.fstore (.byte 9), .iconst .two, .bipush 7]].foldl add {}).tally ∧
      Tally.ranking
          ([Code.ofInstructions [.ldc (.short 3), .fstore (.wide 9), .iconst .two],
            Code.ofInstructions [.fstore (.byte 9), .iconst .two, .bipush 7]].foldl add {}).tally =
        [(.iconst2, 2), (.fstore, 2), (.bipush, 1), (.ldc, 1)] := by
  have hranking : Tally.ranking [(.bipush, 1), (.fstore, 2), (.iconst2, 2), (.ldc, 1)] =
      [(.iconst2, 2), (.fstore, 2), (.bipush, 1), (.ldc, 1)] := by
    simp [Tally.ranking, List.mergeSort, List.MergeSort.Internal.splitInTwo, Tally.rankedBefore,
      Opcode.toByte]
  have hperm : List.Perm [(.bipush, 1), (.fstore, 2), (.iconst2, 2), (.ldc, 1)]
      ([Code.ofInstructions [.ldc (.short 3), .fstore (.wide 9), .iconst .two],
        Code.ofInstructions [.fstore (.byte 9), .iconst .two, .bipush 7]].foldl add {}).tally := by
    decide
  exact ⟨hranking, hperm, (ranking_of_visited _ _ hperm).1.symm.trans hranking⟩

end Statistics

end Bytecode
