import Bytecode.ConstantSource
import Bytecode.Text.Replace

/-!
# The constant pool

A pool hands out indices to constants. The first index is 1, and a `long` or `double` takes up a
second one, which stays empty. A constant can be pushed, which always makes a new entry, or
interned, which shares the first entry that is equal. A pool that is full refuses; what a refused
step has appended stays.

## Main definitions

* `ConstantPool`, `ConstantPool.new`: the pool, and the one without entries
* `Building`: a step that changes a pool, and may find it full
* `ConstantPool.push`, `ConstantPool.intern`: a new entry, and a shared one
* `ConstantPool.pushTimes`: filling a pool with one constant
* `ConstantPool.addString`, `ConstantPool.addClass`: entries that come with the text they name
* `ConstantPool.source`, `ConstantPool.entries`: reading a pool

## Main results

* `Building.runOn_bind`: one building step after another
* `ConstantPool.size_append`: how an appended constant changes the size
* `ConstantPool.runOn_push`, `ConstantPool.runOn_intern`: the outcome of a push and of interning
-/

namespace Bytecode

/-- **A constant pool**: what stands at each index. -/
structure ConstantPool where
  -- the constants by index; index 0 and the second index of a two-slot constant are empty
  slots : Array (Option Constant)
  deriving DecidableEq

/-- The refusal of a pool. -/
inductive PoolError where
  | overflow
  deriving DecidableEq

/-- The wording of a refusal. -/
def PoolError.message : PoolError → String
  | overflow => "constant pool overflow"

/-- **A building step** changes a pool and gives a value, or finds the pool full. -/
abbrev Building (α : Type) := ExceptT PoolError (StateM ConstantPool) α

/-- The outcome of a building step on a pool, and the pool afterwards. -/
def Building.runOn {α : Type} (step : Building α) (pool : ConstantPool) :
    Except PoolError α × ConstantPool :=
  StateT.run (ExceptT.run step) pool

namespace Building

variable {α β : Type}

@[simp] theorem runOn_pure (a : α) (pool : ConstantPool) :
    runOn (pure a : Building α) pool = (.ok a, pool) := rfl

@[simp] theorem runOn_throw (e : PoolError) (pool : ConstantPool) :
    runOn (throw e : Building α) pool = (.error e, pool) := rfl

@[simp] theorem runOn_get (pool : ConstantPool) :
    runOn (get : Building ConstantPool) pool = (.ok pool, pool) := rfl

@[simp] theorem runOn_modify (change : ConstantPool → ConstantPool) (pool : ConstantPool) :
    runOn (modify change : Building Unit) pool = (.ok (), change pool) := rfl

/-- **A bind** goes on with the value of its first step, on the pool that step left. -/
theorem runOn_bind (step : Building α) (next : α → Building β) (pool : ConstantPool) :
    runOn (step >>= next) pool =
      match step.runOn pool with
      | (.ok a, pool') => (next a).runOn pool'
      | (.error e, pool') => (.error e, pool') := by
  simp only [runOn, ExceptT.run_bind, StateT.run_bind]
  rcases StateT.run (ExceptT.run step) pool with ⟨_ | _, _⟩ <;> rfl

theorem runOn_bind_of_ok {step : Building α} {pool pool' : ConstantPool} {a : α}
    (h : step.runOn pool = (.ok a, pool')) (next : α → Building β) :
    runOn (step >>= next) pool = (next a).runOn pool' := by
  rw [runOn_bind, h]

/-- A bind that succeeds: both its steps do. -/
theorem runOn_bind_eq_ok {step : Building α} {next : α → Building β}
    {pool pool' : ConstantPool} {b : β} (h : runOn (step >>= next) pool = (.ok b, pool')) :
    ∃ a middle, step.runOn pool = (.ok a, middle) ∧ (next a).runOn middle = (.ok b, pool') := by
  rw [runOn_bind] at h
  split at h
  · next a middle hstep => exact ⟨a, middle, hstep, h⟩
  · simp at h

/-- A bind that is refused: either its first step is, or that succeeds and the second is. -/
theorem runOn_bind_eq_error {step : Building α} {next : α → Building β}
    {pool pool' : ConstantPool} {e : PoolError}
    (h : runOn (step >>= next) pool = (.error e, pool')) :
    step.runOn pool = (.error e, pool') ∨
      ∃ a middle, step.runOn pool = (.ok a, middle) ∧
        (next a).runOn middle = (.error e, pool') := by
  rw [runOn_bind] at h
  split at h
  · next a middle hstep => exact .inr ⟨a, middle, hstep, h⟩
  · next hstep =>
    cases h
    exact .inl hstep

end Building

namespace ConstantPool

/-- The greatest index, and the greatest size of a pool in order. -/
def maxIndex : Nat := 65535

/-- The pool without constants: only index 0, which stays empty. -/
def new : ConstantPool := ⟨#[none]⟩

/-- One more than the greatest index in use. -/
def size (pool : ConstantPool) : Nat := pool.slots.size

/-- The pool holds no constant. -/
def isEmpty (pool : ConstantPool) : Bool := pool.size == 1

/-- The pool with a constant at its end, and an empty index after a two-slot constant. -/
def append (pool : ConstantPool) (constant : Constant) : ConstantPool :=
  let slots := pool.slots.push (some constant)
  ⟨if constant.takesTwoSlots then slots.push none else slots⟩

/-- The index of the first constant equal to the one wanted, if it is an index at all. -/
def find? (pool : ConstantPool) (wanted : Constant) : Option UInt16 :=
  match pool.slots.findIdx? fun entry => entry.any (·.agrees wanted) with
  | some index => if index ≤ maxIndex then some (UInt16.ofNat index) else none
  | none => none

/-- **Pushes a constant**: its index is the size before. The pool is full if this is no index, and
then nothing changes; and also if the size afterwards is too great, and then the entry stays. -/
def push (constant : Constant) : Building UInt16 := do
  let index := (← get).size
  if index ≤ maxIndex then
    modify (·.append constant)
    if (← get).size ≤ maxIndex then return UInt16.ofNat index else throw .overflow
  else throw .overflow

/-- **Interns a constant**: the index of the first equal one, or else that of a new entry. -/
def intern (constant : Constant) : Building UInt16 := do
  match (← get).find? constant with
  | some index => return index
  | none => push constant

/-- Pushes a constant `count` times, to bring a pool close to its limit; gives the last index, if
there is one. -/
def pushTimes (constant : Constant) (count : Nat) : Building (Option UInt16) :=
  (List.replicate count constant).foldlM (fun _ constant => return some (← push constant)) none

/-- Interns a text. -/
def addUtf8 (text : String) : Building UInt16 := intern (.utf8 text)

/-- Interns an integer. -/
def addInteger (value : Int32) : Building UInt16 := intern (.integer value)

/-- Interns a single-precision number. -/
def addFloat (bits : UInt32) : Building UInt16 := intern (.float bits)

/-- Interns a long integer. -/
def addLong (value : Int64) : Building UInt16 := intern (.long value)

/-- Interns a double-precision number. -/
def addDouble (bits : UInt64) : Building UInt16 := intern (.double bits)

/-- Interns a text, and then the text object of it. -/
def addString (text : String) : Building UInt16 := do
  intern (.string (← addUtf8 text))

/-- Interns a class name with slashes for dots, and then the class of it. -/
def addClass (name : String) : Building UInt16 := do
  intern (.classRef (← addUtf8 (Text.replace '.' '/' name)))

/-- The constant at an index. -/
def constantAt (pool : ConstantPool) (index : UInt16) : Option Constant :=
  pool.slots[index.toNat]?.join

/-- The pool as a source of constants. -/
def source (pool : ConstantPool) : ConstantSource := ⟨pool.constantAt⟩

/-- The constants with their indices, in ascending order. What lies beyond the greatest index is
left out. -/
def entries (pool : ConstantPool) : List (UInt16 × Constant) :=
  (pool.slots.toList.take (maxIndex + 1)).zipIdx.filterMap fun (entry, index) =>
    entry.map fun constant => (UInt16.ofNat index, constant)

@[simp] theorem size_append (pool : ConstantPool) (constant : Constant) :
    (pool.append constant).size = pool.size + constant.slots := by
  unfold append size Constant.slots
  split <;> simp_all

/-- **A push** by the two places where the limit is checked: before the constant is appended, and
after. -/
theorem runOn_push (constant : Constant) (pool : ConstantPool) :
    (push constant).runOn pool =
      if pool.size ≤ maxIndex then
        (if pool.size + constant.slots ≤ maxIndex then .ok (UInt16.ofNat pool.size)
          else .error .overflow, pool.append constant)
      else (.error .overflow, pool) := by
  by_cases hindex : pool.size ≤ maxIndex
  · by_cases hsize : pool.size + constant.slots ≤ maxIndex
    · simp [push, Building.runOn_bind, hindex, hsize]
    · simp [push, Building.runOn_bind, hindex, hsize]
  · simp [push, Building.runOn_bind, hindex]

theorem runOn_intern (constant : Constant) (pool : ConstantPool) :
    (intern constant).runOn pool =
      match pool.find? constant with
      | some index => (.ok index, pool)
      | none => (push constant).runOn pool := by
  rw [intern, Building.runOn_bind_of_ok (Building.runOn_get pool)]
  cases pool.find? constant <;> rfl

end ConstantPool

end Bytecode
