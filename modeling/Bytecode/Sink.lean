import Bytecode.Word

/-!
# Writing bytes

A sink takes bytes, signed bytes and words, one write at a time. A write changes the state of the
sink and may fail; what a failed write has changed stays changed. A sink is given by its three
writes, of which only that of a byte has to be chosen.

## Main definitions

* `Writer`: a computation that changes a state and may fail
* `Sink`: the three writes
* `Sink.buffer`: a buffer that grows and never fails
* `Sink.bounded`, `Sink.region`: two sinks of fixed capacity
* `Sink.borrowed`: a sink lent to another writer

## Main results

* `Writer.runAt_bind`: running one writer after another
* `Sink.runAt_byte_bounded`, `Sink.runAt_writeRun`: the writes of the sinks of fixed capacity
-/

namespace Bytecode

/-- **A writer** changes a state and may fail. -/
abbrev Writer (σ ε α : Type) := ExceptT ε (StateM σ) α

/-- The result of a writer, and the state it leaves. -/
def Writer.runAt {σ ε α : Type} (writer : Writer σ ε α) (state : σ) : Except ε α × σ :=
  StateT.run (ExceptT.run writer) state

namespace Writer

variable {σ ε α β : Type}

@[simp] theorem runAt_pure (a : α) (state : σ) :
    runAt (pure a : Writer σ ε α) state = (.ok a, state) := rfl

@[simp] theorem runAt_throw (e : ε) (state : σ) :
    runAt (throw e : Writer σ ε α) state = (.error e, state) := rfl

@[simp] theorem runAt_get (state : σ) :
    runAt (get : Writer σ ε σ) state = (.ok state, state) := rfl

@[simp] theorem runAt_modify (change : σ → σ) (state : σ) :
    runAt (modify change : Writer σ ε Unit) state = (.ok (), change state) := rfl

/-- **A bind** goes on with the value of its first writer, in the state that writer left. -/
theorem runAt_bind (writer : Writer σ ε α) (next : α → Writer σ ε β) (state : σ) :
    runAt (writer >>= next) state =
      match writer.runAt state with
      | (.ok a, state') => (next a).runAt state'
      | (.error e, state') => (.error e, state') := by
  simp only [runAt, ExceptT.run_bind, StateT.run_bind]
  rcases StateT.run (ExceptT.run writer) state with ⟨_ | _, _⟩ <;> rfl

theorem runAt_bind_of_ok {writer : Writer σ ε α} {state state' : σ} {a : α}
    (h : writer.runAt state = (.ok a, state')) (next : α → Writer σ ε β) :
    runAt (writer >>= next) state = (next a).runAt state' := by
  rw [runAt_bind, h]

end Writer

/-- **A sink** over states `σ` with failures `ε`. Unless it says otherwise, a signed byte is
written as the byte with the same bits, and a word as its high and its low byte. -/
structure Sink (σ ε : Type) where
  byte : UInt8 → Writer σ ε Unit
  signed : Int8 → Writer σ ε Unit := fun value => byte value.toUInt8
  word : UInt16 → Writer σ ε Unit := fun value => do
    byte (Word.high value)
    byte (Word.low value)

/-- Why a sink of fixed capacity refuses a write. -/
inductive SinkError where
  | full
  -- not all bytes of the write fit
  | shortWrite
  deriving DecidableEq

/-- The wording of a refusal. -/
def SinkError.message : SinkError → String
  | full => "sink full"
  | shortWrite => "failed to write whole buffer"

namespace Sink

/-- **The buffer** appends every byte at the end. -/
def buffer : Sink (Array UInt8) Empty where
  byte value := modify (·.push value)
  word value := modify fun held => held ++ #[Word.high value, Word.low value]

/-- **The bounded sink** holds `capacity` bytes and refuses every further one. -/
def bounded (capacity : Nat) : Sink (Array UInt8) SinkError where
  byte value := do
    if (← get).size < capacity then modify (·.push value) else throw .full

/-- Writes a run of bytes into a region of `capacity` bytes: as many as fit, and it fails if
these are not all. -/
def writeRun (capacity : Nat) (run : List UInt8) : Writer (Array UInt8) SinkError Unit := do
  let room := capacity - (← get).size
  modify fun held => held ++ (run.take room).toArray
  if room < run.length then throw .shortWrite

/-- **The region** holds `capacity` bytes; a byte or a word is written as one run. -/
def region (capacity : Nat) : Sink (Array UInt8) SinkError where
  byte value := writeRun capacity [value]
  word value := writeRun capacity [Word.high value, Word.low value]

/-- **A borrowed sink** hands bytes and words on to its owner. Signed bytes go to the owner as
bytes. -/
def borrowed {σ ε : Type} (owner : Sink σ ε) : Sink σ ε where
  byte := owner.byte
  word := owner.word

theorem runAt_byte_bounded (capacity : Nat) (value : UInt8) (held : Array UInt8) :
    ((bounded capacity).byte value).runAt held =
      if held.size < capacity then (.ok (), held.push value) else (.error .full, held) := by
  by_cases hroom : held.size < capacity
  · simp [bounded, Writer.runAt_bind, hroom]
  · simp [bounded, Writer.runAt_bind, hroom]

theorem runAt_writeRun (capacity : Nat) (run : List UInt8) (held : Array UInt8) :
    (writeRun capacity run).runAt held =
      (if capacity - held.size < run.length then .error .shortWrite else .ok (),
        held ++ (run.take (capacity - held.size)).toArray) := by
  by_cases hroom : capacity - held.size < run.length
  · simp [writeRun, Writer.runAt_bind, hroom]
  · simp [writeRun, Writer.runAt_bind, hroom]

end Sink

end Bytecode
