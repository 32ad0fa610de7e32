import Bytecode.Visit
import Mathlib.Algebra.GroupWithZero.Nat
import Mathlib.Data.List.Forall2

/-!
# Visits come in blocks

What an instruction pushes, pops, is typed as and may raise is told twice: by the instruction, and
by its visits. A pass sees only the visits, one after another and with nothing in between, so it has
to know where those of an instruction end. They end with the visit for the instruction itself, which
is made once; cut behind every such visit, the visits of code fall into blocks in one way, one block
for each instruction, and what a block tells is what the instruction tells.

## Main definitions

* `Visit.IsBlock`, `Visit.Cuts`: one visit for an instruction itself, at the end, and a sequence cut
  into such blocks
* `Visit.blocks`: visits cut behind every visit for an instruction itself
* `Visit.Presents`: a block tells what an instruction tells

## Main results

* `Visit.cuts_iff`: a sequence is cut into blocks in no other way
* `Instruction.presents_visits`: the visits of an instruction present it
* `Code.visits_in_blocks`: the visits of code, block by block
-/

namespace Bytecode

/-! ## What a role tells -/

namespace Role

/-- The visit is for the instruction itself. -/
def isItself : Role → Bool
  | itself _ => true
  | _ => false

/-- The words of a producer. -/
def producedWords? : Role → Option Nat
  | stackProducer words => some words
  | _ => none

/-- The words of a consumer. -/
def consumedWords? : Role → Option Nat
  | stackConsumer words => some words
  | _ => none

/-- The type of what is typed. -/
def type? : Role → Option StaticType
  | typed type => some type
  | _ => none

/-- The failures of what may fail. -/
def failures : Role → List RuntimeFailure
  | thrower failures => failures
  | _ => []

end Role

/-! ## Blocks -/

namespace Visit

/-- **A block of visits**: one of them is for an instruction itself, and it is the last. -/
def IsBlock (block : List Visit) : Prop :=
  ∃ front last, block = front ++ [last] ∧ last.role.isItself = true ∧
    ∀ visit ∈ front, visit.role.isItself = false

/-- **Visits cut into blocks**. -/
structure Cuts (blocks : List (List Visit)) (visits : List Visit) : Prop where
  flatten_eq : blocks.flatten = visits
  isBlock : ∀ block ∈ blocks, IsBlock block

/-- **Visits cut behind every visit for an instruction itself**. -/
def blocks : List Visit → List (List Visit)
  | [] => []
  | visit :: rest =>
    if visit.role.isItself then [visit] :: blocks rest
    else
      match blocks rest with
      | [] => [[visit]]
      | block :: others => (visit :: block) :: others

variable {block : List Visit} {cut : List (List Visit)} {visits : List Visit}

theorem blocks_cons_of_isItself {visit : Visit} (h : visit.role.isItself = true)
    (rest : List Visit) : blocks (visit :: rest) = [visit] :: blocks rest := by
  rw [blocks, if_pos h]

theorem blocks_cons_of_not_isItself {visit : Visit} (h : visit.role.isItself = false)
    {rest : List Visit} {others : List (List Visit)} (hrest : blocks rest = block :: others) :
    blocks (visit :: rest) = (visit :: block) :: others := by
  rw [blocks, if_neg (by simp [h]), hrest]

/-- **A block in front** is cut off as it is. -/
theorem blocks_append (h : IsBlock block) (rest : List Visit) :
    blocks (block ++ rest) = block :: blocks rest := by
  obtain ⟨front, last, rfl, hlast, hfront⟩ := h
  -- by induction on the visits before the last one, none of which ends the block
  induction front with
  | nil => exact blocks_cons_of_isItself hlast rest
  | cons visit front ih =>
    obtain ⟨hvisit, hothers⟩ := List.forall_mem_cons.mp hfront
    exact blocks_cons_of_not_isItself hvisit (ih hothers)

/-- **A sequence is cut into blocks in no other way**. -/
theorem Cuts.eq_blocks (h : Cuts cut visits) : cut = blocks visits := by
  obtain ⟨rfl, hblocks⟩ := h
  induction cut with
  | nil => rfl
  | cons block others ih =>
    obtain ⟨hblock, hothers⟩ := List.forall_mem_cons.mp hblocks
    rw [List.flatten_cons, blocks_append hblock, ← ih hothers]

theorem cuts_iff (h : Cuts cut visits) (other : List (List Visit)) :
    Cuts other visits ↔ other = blocks visits := by
  constructor
  · exact Cuts.eq_blocks
  · rintro rfl
    rw [← h.eq_blocks]
    exact h

/-- **A block presents an instruction**: it ends with the visit for the instruction itself, and what
its visits tell together is what the instruction tells. -/
structure Presents (source : ConstantSource) (block : List Visit) (instruction : Instruction) :
    Prop where
  last_eq : ∃ front,
    block = front ++ [⟨instruction.opcode, instruction.length, .itself instruction⟩] ∧
      ∀ visit ∈ front, visit.role.isItself = false
  alike : ∀ visit ∈ block,
    visit.opcode = instruction.opcode ∧ visit.length = instruction.length
  pushed_eq : (block.filterMap (·.role.producedWords?)).sum = instruction.pushed
  popped_eq : (block.filterMap (·.role.consumedWords?)).sum = instruction.popped
  type_eq : ∃ type, block.filterMap (·.role.type?) = [type] ∧
    type.resolve source = instruction.type source
  failures_eq : block.flatMap (·.role.failures) = instruction.failures
  store_iff : (∃ visit ∈ block, ∃ slot, visit.role = .store slot) ↔
    ∃ slot, instruction = .fstore slot
  store_after : ∀ front visit back slot, block = front ++ visit :: back →
    visit.role = .store slot → ∃ earlier ∈ front, earlier.role = .localVariable slot

theorem Presents.isBlock {source : ConstantSource} {instruction : Instruction}
    (h : Presents source block instruction) : IsBlock block := by
  obtain ⟨front, hblock, hfront⟩ := h.last_eq
  exact ⟨front, _, hblock, rfl, hfront⟩

end Visit

/-! ## The visits of an instruction -/

namespace Instruction

variable (instruction : Instruction)

/-- The roles of an instruction end with the instruction itself, and only there. -/
theorem roles_eq_append :
    ∃ front, instruction.roles = front ++ [.itself instruction] ∧
      ∀ role ∈ front, role.isItself = false := by
  cases instruction with
  | iconst value => exact ⟨[_, _, _, _], rfl, by simp [Role.isItself]⟩
  | bipush value => exact ⟨[_, _, _, _], rfl, by simp [Role.isItself]⟩
  | ldc ref => exact ⟨[_, _, _, _, _], rfl, by simp [Role.isItself]⟩
  | fstore slot => exact ⟨[_, _, _, _, _], rfl, by simp [Role.isItself]⟩

theorem map_role_visits : instruction.visits.map Visit.role = instruction.roles := by
  rw [visits, List.map_map]
  exact List.map_id _

/-- What is picked from the roles may be picked from the visits as well. -/
theorem filterMap_role_visits {α : Type} (pick : Role → Option α) :
    (instruction.visits.filterMap fun visit => pick visit.role) =
      instruction.roles.filterMap pick := by
  rw [← map_role_visits, List.filterMap_map]
  rfl

theorem sum_producedWords_roles :
    (instruction.roles.filterMap Role.producedWords?).sum = instruction.pushed := by
  cases instruction <;> rfl

theorem sum_consumedWords_roles :
    (instruction.roles.filterMap Role.consumedWords?).sum = instruction.popped := by
  cases instruction <;> rfl

/-- **An instruction is typed once**, and its type is found where the type of its visit is. -/
theorem exists_type_roles (source : ConstantSource) :
    ∃ type, instruction.roles.filterMap Role.type? = [type] ∧
      type.resolve source = instruction.type source := by
  cases instruction with
  | iconst value => exact ⟨.known .int, rfl, rfl⟩
  | bipush value => exact ⟨.known .byte, rfl, rfl⟩
  | ldc ref => exact ⟨.loaded ref, rfl, rfl⟩
  | fstore slot => exact ⟨.known .float, rfl, rfl⟩

theorem flatMap_failures_roles :
    instruction.roles.flatMap Role.failures = instruction.failures := by
  cases instruction <;> rfl

theorem exists_store_mem_roles_iff :
    (∃ slot, .store slot ∈ instruction.roles) ↔ ∃ slot, instruction = .fstore slot := by
  cases instruction <;> simp [roles]

/-- **A store is visited as one** after it was visited with its local variable. -/
theorem localVariable_mem_of_roles_eq {front back : List Role} {slot : UInt16}
    (h : instruction.roles = front ++ .store slot :: back) : .localVariable slot ∈ front := by
  cases instruction with
  | fstore stored =>
    -- there is one such role, so it has this place among the roles of a store
    have hplace : [.pop 1, .stackConsumer 1, .typed (.known .float),
        .localVariable stored.index] ++ .store stored.index :: [.itself (.fstore stored)] =
        front ++ .store slot :: back := h
    obtain ⟨rfl, hslot, -⟩ :=
      (List.append_cons_inj_of_notMem (by simp) (by simp)).mp hplace
    cases hslot
    simp
  | _ =>
    have hmem : .store slot ∈ front ++ .store slot :: back := by simp
    rw [← h] at hmem
    simp [roles] at hmem

/-- **The visits of an instruction present it**. -/
theorem presents_visits (source : ConstantSource) :
    Visit.Presents source instruction.visits instruction where
  last_eq := by
    obtain ⟨front, hroles, hfront⟩ := instruction.roles_eq_append
    refine ⟨front.map fun role => ⟨instruction.opcode, instruction.length, role⟩, ?_, ?_⟩
    · rw [visits, hroles, List.map_append, List.map_singleton]
    · simpa using hfront
  alike := by
    intro visit hvisit
    obtain ⟨role, -, rfl⟩ := List.mem_map.mp hvisit
    exact ⟨rfl, rfl⟩
  pushed_eq := by
    rw [filterMap_role_visits instruction Role.producedWords?]
    exact instruction.sum_producedWords_roles
  popped_eq := by
    rw [filterMap_role_visits instruction Role.consumedWords?]
    exact instruction.sum_consumedWords_roles
  type_eq := by
    rw [filterMap_role_visits instruction Role.type?]
    exact instruction.exists_type_roles source
  failures_eq := by
    rw [← flatMap_failures_roles, ← map_role_visits, List.flatMap_map]
  store_iff := by
    rw [← exists_store_mem_roles_iff, ← map_role_visits]
    simp only [List.mem_map]
    constructor
    · rintro ⟨visit, hvisit, slot, hstore⟩
      exact ⟨slot, visit, hvisit, hstore⟩
    · rintro ⟨slot, visit, hvisit, hstore⟩
      exact ⟨visit, hvisit, slot, hstore⟩
  store_after := by
    intro front visit back slot hblock hstore
    have hroles := congrArg (List.map Visit.role) hblock
    rw [map_role_visits, List.map_append, List.map_cons, hstore] at hroles
    obtain ⟨earlier, hearlier, hrole⟩ :=
      List.mem_map.mp (instruction.localVariable_mem_of_roles_eq hroles)
    exact ⟨earlier, hearlier, hrole⟩

end Instruction

/-! ## The visits of code -/

namespace Code

/-- The visits of code are those of its instructions, and these are blocks. -/
theorem cuts_visits (code : Code) :
    Visit.Cuts (code.instructions.map Instruction.visits) code.visits where
  flatten_eq := List.flatMap_def.symm
  isBlock := by
    intro block hblock
    obtain ⟨instruction, -, rfl⟩ := List.mem_map.mp hblock
    exact (instruction.presents_visits .empty).isBlock

/-- **The visits of code come in blocks**, in the order of its instructions: there is one way to cut
them, and each block presents its instruction. -/
theorem visits_in_blocks (code : Code) (source : ConstantSource) :
    (∀ cut : List (List Visit), Visit.Cuts cut code.visits ↔ cut = Visit.blocks code.visits) ∧
      List.Forall₂ (Visit.Presents source) (Visit.blocks code.visits) code.instructions := by
  refine ⟨Visit.cuts_iff code.cuts_visits, ?_⟩
  rw [← code.cuts_visits.eq_blocks, List.forall₂_map_left_iff, List.forall₂_same]
  exact fun instruction _ => instruction.presents_visits source

end Code

end Bytecode
