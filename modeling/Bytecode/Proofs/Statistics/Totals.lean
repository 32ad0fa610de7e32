import Bytecode.Statistics
import Mathlib.Algebra.BigOperators.Group.List.Basic
import Mathlib.Algebra.GroupWithZero.Nat
import Mathlib.Data.Int.Order.Basic
import Mathlib.Data.List.Induction
import Mathlib.Order.Bounds.Basic

/-!
# What statistics say

Statistics see instructions only through visits, several for each instruction, and they are carried
on from one piece of code to the next. What they say is nevertheless a plain description of all the
instructions visited, one after another: how many there are of each kind, how many words they push
and pop, and how high the stack stands at most. The depth of the stack is compared with the
greatest one only where words are pushed; that is enough, since whoever pops leaves the stack below
a depth that was compared before.

## Main definitions

* `Instruction.isConstantPush`, `Instruction.isLoad`, `Instruction.storedSlot?`: the kinds counted
* `Instruction.stackChange`, `Instruction.stackDepths`: what instructions do to the depth of the
  stack, and the depths on the way
* `Statistics.Describe`: each count is what its name says

## Main results

* `Statistics.addInstruction_eq`: what the visits of one instruction add
* `Statistics.describe_foldl`: statistics describe what was visited
* `Statistics.totals_of_visited`: the same for pieces of code, with what follows from it
-/

namespace Bytecode

namespace Instruction

/-! ## Kinds of instructions -/

/-- It pushes a value that is part of it. -/
def isConstantPush : Instruction → Bool
  | iconst _ => true
  | bipush _ => true
  | _ => false

/-- It loads a constant. -/
def isLoad : Instruction → Bool
  | ldc _ => true
  | _ => false

/-- The local variable it stores into, if it is a store. -/
def storedSlot? : Instruction → Option UInt16
  | fstore slot => some slot.index
  | _ => none

/-- It stores into a local variable. -/
def isStore (instruction : Instruction) : Bool := instruction.storedSlot?.isSome

/-- **Every instruction has one opcode**, so the numbers by opcode add up to the number of all. -/
theorem sum_countP_opcode (instructions : List Instruction) :
    (Opcode.all.map fun opcode => instructions.countP (·.opcode = opcode)).sum =
      instructions.length := by
  induction instructions with
  | nil => rfl
  | cons instruction rest ih =>
    have hone : (Opcode.all.map fun opcode =>
        if decide (instruction.opcode = opcode) = true then 1 else 0).sum = 1 := by
      cases instruction.opcode <;> rfl
    simp only [List.countP_cons, List.sum_map_add, ih, hone, List.length_cons]

/-! ## The depth of the stack -/

/-- The words pushed less the words popped. -/
def stackChange (instructions : List Instruction) : Int :=
  ((instructions.map pushed).sum : Int) - (instructions.map popped).sum

/-- **The depths of the stack** on the way through instructions, counted from where they start:
what each of their beginnings does to it. -/
def stackDepths (instructions : List Instruction) : Set Int :=
  stackChange '' {front | front <+: instructions}

theorem stackChange_concat (instructions : List Instruction) (last : Instruction) :
    stackChange (instructions ++ [last]) =
      stackChange instructions + last.pushed - last.popped := by
  simp only [stackChange, List.map_append, List.map_singleton, List.sum_append,
    List.sum_singleton, Int.natCast_add]
  omega

theorem stackDepths_nil : stackDepths [] = {0} := by
  ext depth
  simp [stackDepths, stackChange]

/-- One more instruction adds the depth after it. -/
theorem stackDepths_concat (instructions : List Instruction) (last : Instruction) :
    stackDepths (instructions ++ [last]) =
      insert (stackChange (instructions ++ [last])) (stackDepths instructions) := by
  have hfronts : {front | front <+: instructions ++ [last]} =
      insert (instructions ++ [last]) {front | front <+: instructions} := by
    ext front
    exact List.prefix_concat_iff
  rw [stackDepths, hfronts, Set.image_insert_eq, stackDepths]

theorem stackChange_mem_stackDepths (instructions : List Instruction) :
    stackChange instructions ∈ stackDepths instructions :=
  ⟨instructions, List.prefix_refl instructions, rfl⟩

theorem zero_mem_stackDepths (instructions : List Instruction) :
    0 ∈ stackDepths instructions :=
  ⟨[], List.nil_prefix, rfl⟩

end Instruction

open Instruction

namespace Statistics

/-! ## One instruction -/

/-- **The statistics after one more instruction**, all its visits at once. -/
def addInstruction (stats : Statistics) (instruction : Instruction) : Statistics :=
  instruction.visits.foldl visit stats

/-- **What the visits of an instruction add**. Only a push can reach a new depth. -/
theorem addInstruction_eq {stats : Statistics} (h : stats.depth ≤ stats.maxDepth)
    (instruction : Instruction) :
    stats.addInstruction instruction =
      { tally := Tally.bump instruction.opcode stats.tally
        instructions := stats.instructions + 1
        bytes := stats.bytes + instruction.length
        constantPushes := stats.constantPushes + if instruction.isConstantPush then 1 else 0
        poolReferences := stats.poolReferences + if instruction.isLoad then 1 else 0
        throwers := stats.throwers + if instruction.isLoad then 1 else 0
        stores := stats.stores + if instruction.isStore then 1 else 0
        wordsPushed := stats.wordsPushed + instruction.pushed
        wordsPopped := stats.wordsPopped + instruction.popped
        maxLocal :=
          match instruction.storedSlot? with
          | some slot => raise slot stats.maxLocal
          | none => stats.maxLocal
        depth := stats.depth + instruction.pushed - instruction.popped
        maxDepth :=
          max stats.maxDepth (stats.depth + instruction.pushed - instruction.popped) } := by
  -- after a pop the depth is no candidate
  have hbelow : max stats.maxDepth (stats.depth - 1) = stats.maxDepth := max_eq_left (by omega)
  cases instruction <;>
    simp [addInstruction, visits, roles, visit, isConstantPush, isLoad, isStore, storedSlot?,
      pushed, popped, hbelow]

theorem max?_concat (slots : List UInt16) (slot : UInt16) :
    (slots ++ [slot]).max? = raise slot slots.max? := by
  cases slots with
  | nil => rfl
  | cons first rest => simp [List.max?, raise]

/-! ## All instructions visited -/

/-- **Statistics describe the instructions visited**: each count is what its name says. -/
structure Describe (stats : Statistics) (visited : List Instruction) : Prop where
  instructions : stats.instructions = visited.length
  bytes : stats.bytes = (visited.map Instruction.length).sum
  count : ∀ opcode, Tally.count stats.tally opcode = visited.countP (·.opcode = opcode)
  constantPushes : stats.constantPushes = visited.countP isConstantPush
  poolReferences : stats.poolReferences = visited.countP isLoad
  throwers : stats.throwers = visited.countP isLoad
  stores : stats.stores = visited.countP isStore
  wordsPushed : stats.wordsPushed = (visited.map pushed).sum
  wordsPopped : stats.wordsPopped = (visited.map popped).sum
  maxLocal : stats.maxLocal = (visited.filterMap storedSlot?).max?
  depth : stats.depth = stackChange visited
  maxDepth : IsGreatest (stackDepths visited) stats.maxDepth

theorem describe_nil : Describe {} [] where
  instructions := rfl
  bytes := rfl
  count _ := rfl
  constantPushes := rfl
  poolReferences := rfl
  throwers := rfl
  stores := rfl
  wordsPushed := rfl
  wordsPopped := rfl
  maxLocal := rfl
  depth := rfl
  maxDepth := by
    rw [stackDepths_nil]
    exact isGreatest_singleton

/-- **One more instruction** is described too. -/
theorem Describe.addInstruction {stats : Statistics} {visited : List Instruction}
    (h : stats.Describe visited) (instruction : Instruction) :
    (stats.addInstruction instruction).Describe (visited ++ [instruction]) := by
  have hle : stats.depth ≤ stats.maxDepth := by
    rw [h.depth]
    exact h.maxDepth.2 (stackChange_mem_stackDepths visited)
  have hdepth : stats.depth + instruction.pushed - instruction.popped =
      stackChange (visited ++ [instruction]) := by
    rw [h.depth, stackChange_concat]
  rw [addInstruction_eq hle]
  constructor
  case instructions => simp [h.instructions]
  case bytes => simp [h.bytes]
  case count =>
    intro opcode
    simp [Tally.count_bump, h.count, List.countP_singleton]
  case constantPushes => simp [h.constantPushes, List.countP_singleton]
  case poolReferences => simp [h.poolReferences, List.countP_singleton]
  case throwers => simp [h.throwers, List.countP_singleton]
  case stores => simp [h.stores, List.countP_singleton]
  case wordsPushed => simp [h.wordsPushed]
  case wordsPopped => simp [h.wordsPopped]
  case maxLocal =>
    cases hslot : instruction.storedSlot? with
    | none => simp [hslot, h.maxLocal]
    | some slot => simp [hslot, h.maxLocal, max?_concat]
  case depth => exact hdepth
  case maxDepth =>
    rw [hdepth, stackDepths_concat, max_comm]
    exact h.maxDepth.insert _

/-- **Statistics describe what was visited**, one instruction after another. -/
theorem describe_foldl (visited : List Instruction) :
    (visited.foldl addInstruction {}).Describe visited := by
  induction visited using List.reverseRecOn with
  | nil => exact describe_nil
  | append_singleton visited instruction ih =>
    rw [List.foldl_concat]
    exact ih.addInstruction instruction

/-! ## Pieces of code -/

theorem add_eq_foldl (stats : Statistics) (code : Code) :
    stats.add code = code.instructions.foldl addInstruction stats := by
  rw [add, Code.visits, List.foldl_flatMap]
  rfl

theorem foldl_add_eq_foldl (stats : Statistics) (codes : List Code) :
    codes.foldl add stats = (codes.flatMap Code.instructions).foldl addInstruction stats := by
  rw [List.foldl_flatMap]
  congr 1
  ext1 stats
  ext1 code
  exact stats.add_eq_foldl code

/-- **The totals of all code visited**, piece after piece. The numbers by opcode add up to the
number of instructions, and the greatest depth is never counted below where the first piece
began. -/
theorem totals_of_visited (codes : List Code) :
    (codes.foldl add {}).Describe (codes.flatMap Code.instructions) ∧
      (Opcode.all.map (Tally.count (codes.foldl add {}).tally)).sum =
        (codes.flatMap Code.instructions).length ∧
      IsGreatest (stackDepths (codes.flatMap Code.instructions))
        ((codes.foldl add {}).maxStackDelta : Int) := by
  have h : (codes.foldl add {}).Describe (codes.flatMap Code.instructions) := by
    rw [foldl_add_eq_foldl]
    exact describe_foldl _
  refine ⟨h, ?_, ?_⟩
  · rw [funext h.count]
    exact sum_countP_opcode _
  · have hzero : 0 ≤ (codes.foldl add {}).maxDepth := h.maxDepth.2 (zero_mem_stackDepths _)
    rw [maxStackDelta, Int.toNat_of_nonneg hzero]
    exact h.maxDepth

/-- The stack falls below its beginning, rises again and is carried on to the next piece. -/
example :
    let first := Code.ofInstructions [.fstore (.compact 0), .iconst .one, .iconst .two]
    let second := Code.ofInstructions [.bipush 7, .fstore (.wide 400)]
    ([first, second].foldl add {}).maxStackDelta = 2 ∧
      ([first, second].foldl add {}).maxLocal = some 400 := by
  decide

end Statistics

end Bytecode
