import Bytecode.Text.Align
import Bytecode.Visit

/-!
# Statistics of code

Statistics count what visits show: instructions by opcode and by role, words pushed and popped,
the greatest local variable, and the depth of the stack if the code runs straight on. They can be
carried on from one piece of code to the next.

## Main definitions

* `Tally`, `Tally.bump`, `Tally.ranking`: counts by opcode, in order of the first sight, and ranked
* `Statistics`, `Statistics.visit`, `Statistics.add`: the statistics, one visit, and all of code
* `Statistics.report`: the statistics as text

## Main results

* `Tally.count_bump`: counting an opcode once more
-/

namespace Bytecode

/-- **Counts by opcode**. An opcode stands in it at most once, and not before it was seen. -/
abbrev Tally := List (Opcode × Nat)

namespace Tally

/-- Counts an opcode once more. -/
def bump (opcode : Opcode) : Tally → Tally
  | [] => [(opcode, 1)]
  | (seen, count) :: rest =>
    if seen = opcode then (seen, count + 1) :: rest else (seen, count) :: bump opcode rest

/-- The count of an opcode. -/
def count (tally : Tally) (opcode : Opcode) : Nat :=
  (tally.lookup opcode).getD 0

/-- The order of a ranking: the greater count first, and of equal counts the smaller opcode. -/
def rankedBefore (a b : Opcode × Nat) : Bool :=
  b.2 < a.2 || (a.2 == b.2 && a.1.toByte ≤ b.1.toByte)

/-- **The opcodes seen, with their counts**, the most frequent first. -/
def ranking (tally : Tally) : Tally :=
  tally.mergeSort rankedBefore

@[simp] theorem count_nil (opcode : Opcode) : count [] opcode = 0 := rfl

@[simp] theorem count_cons (seen : Opcode) (n : Nat) (rest : Tally) (opcode : Opcode) :
    count ((seen, n) :: rest) opcode = if seen = opcode then n else count rest opcode := by
  by_cases h : seen = opcode
  · simp [count, h]
  · simp [count, List.lookup_cons, h, beq_eq_false_iff_ne.mpr (Ne.symm h)]

/-- **One more sight** adds one to the count of the opcode seen, and to no other. -/
theorem count_bump (tally : Tally) (bumped opcode : Opcode) :
    count (bump bumped tally) opcode =
      count tally opcode + if bumped = opcode then 1 else 0 := by
  induction tally with
  | nil => simp [bump]
  | cons entry rest ih =>
    obtain ⟨seen, n⟩ := entry
    by_cases hseen : seen = bumped
    · subst hseen
      by_cases hopcode : seen = opcode
      · simp [bump, hopcode]
      · simp [bump, hopcode]
    · by_cases hopcode : seen = opcode
      · subst hopcode
        simp [bump, hseen, Ne.symm hseen]
      · simpa [bump, hseen, hopcode] using ih

end Tally

/-- **The statistics** of what has been visited. -/
structure Statistics where
  tally : Tally := []
  instructions : Nat := 0
  bytes : Nat := 0
  -- the number of instructions that push a value that is part of them
  constantPushes : Nat := 0
  poolReferences : Nat := 0
  throwers : Nat := 0
  stores : Nat := 0
  wordsPushed : Nat := 0
  wordsPopped : Nat := 0
  maxLocal : Option UInt16 := none
  -- the words on the stack, which may fall below zero
  depth : Int := 0
  maxDepth : Int := 0

namespace Statistics

/-- The greater of a local variable and those seen before. -/
def raise (slot : UInt16) : Option UInt16 → Option UInt16
  | none => some slot
  | some greatest => some (max greatest slot)

/-- **The statistics after one more visit**. -/
def visit (stats : Statistics) (v : Visit) : Statistics :=
  match v.role with
  | .stackProducer words =>
    let depth := stats.depth + words
    { stats with
      wordsPushed := stats.wordsPushed + words
      depth := depth
      maxDepth := max stats.maxDepth depth }
  | .stackConsumer words =>
    { stats with
      wordsPopped := stats.wordsPopped + words
      depth := stats.depth - words }
  | .constantPush _ => { stats with constantPushes := stats.constantPushes + 1 }
  | .thrower _ => { stats with throwers := stats.throwers + 1 }
  | .poolReference _ => { stats with poolReferences := stats.poolReferences + 1 }
  | .localVariable slot => { stats with maxLocal := raise slot stats.maxLocal }
  | .store _ => { stats with stores := stats.stores + 1 }
  | .itself _ =>
    { stats with
      tally := Tally.bump v.opcode stats.tally
      instructions := stats.instructions + 1
      bytes := stats.bytes + v.length }
  | .push _ | .pop _ | .typed _ => stats

/-- **The statistics after one more piece of code**. -/
def add (stats : Statistics) (code : Code) : Statistics :=
  code.visits.foldl visit stats

/-- The statistics of one piece of code. -/
def ofCode (code : Code) : Statistics := add {} code

/-- The greatest depth of the stack, counted from where the statistics began. -/
def maxStackDelta (stats : Statistics) : Nat := stats.maxDepth.toNat

/-- **The statistics as text**, one count on a line. -/
def report (stats : Statistics) : String :=
  let opcodes := (Tally.ranking stats.tally).map fun (opcode, count) =>
    "  " ++ Text.alignLeft 10 opcode.mnemonic ++ s!" {count}\n"
  let greatest :=
    match stats.maxLocal with
    | some slot => s!"max local: {slot.toNat}\n"
    | none => ""
  "=== Stats ===\n" ++
    s!"instructions: {stats.instructions} ({stats.bytes} bytes)\n" ++
    String.join opcodes ++
    s!"constant pushes: {stats.constantPushes}\n" ++
    s!"pool references: {stats.poolReferences}\n" ++
    s!"stores: {stats.stores}\n" ++
    s!"stack: +{stats.wordsPushed} -{stats.wordsPopped} (max depth {stats.maxStackDelta})\n" ++
    greatest

end Statistics

end Bytecode
