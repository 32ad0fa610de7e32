import Bytecode.DecodeError
import Bytecode.Word

/-!
# Reading bytes in order

A cursor stands in a byte array: it knows how many bytes lie before it and which bytes are left.
A reader moves the cursor, and it may fail. The cursor outlives a failure, so that the place where
a reader gave up can be seen. A single byte or word is read whole or not at all.

## Main definitions

* `Cursor`, `Cursor.start`: the cursor, and the one before the first byte
* `Reader`: a computation that moves a cursor and may fail
* `Reader.byte`, `Reader.signed`, `Reader.word`: the elementary reads

## Main results

* `Reader.runAt_bind`: running one reader after another
* `Reader.runAt_byte_cons`, `Reader.runAt_word_cons`: what the elementary reads take
* `Cursor.MovesOver`: a cursor has passed a run of bytes
-/

namespace Bytecode

/-- **A place in a byte array**: the number of bytes before it, and the bytes after it. -/
structure Cursor where
  -- the number of bytes before the cursor
  position : Nat
  rest : List UInt8
  deriving DecidableEq

namespace Cursor

/-- The cursor before the first byte. -/
def start (bytes : List UInt8) : Cursor := ⟨0, bytes⟩

/-- The number of bytes left. -/
def remaining (cursor : Cursor) : Nat := cursor.rest.length

/-- No byte is left. -/
def isEmpty (cursor : Cursor) : Bool := cursor.rest.isEmpty

/-- **A cursor moves over a run of bytes**: they were the next ones, and now lie before it. -/
def MovesOver (cursor : Cursor) (run : List UInt8) (next : Cursor) : Prop :=
  cursor.rest = run ++ next.rest ∧ next.position = cursor.position + run.length

theorem MovesOver.refl (cursor : Cursor) : cursor.MovesOver [] cursor := ⟨rfl, rfl⟩

theorem MovesOver.trans {a b c : Cursor} {run run' : List UInt8}
    (h : a.MovesOver run b) (h' : b.MovesOver run' c) : a.MovesOver (run ++ run') c := by
  refine ⟨by rw [h.1, h'.1, List.append_assoc], ?_⟩
  rw [h'.2, h.2, List.length_append]
  omega

/-- The failure of a read of `needed` bytes at the cursor. -/
def shortage (cursor : Cursor) (needed : Nat) : DecodeError :=
  .unexpectedEnd cursor.position needed cursor.remaining

end Cursor

/-- **A reader** moves a cursor and gives a value or a cause of failure. -/
abbrev Reader (α : Type) := ExceptT DecodeError (StateM Cursor) α

namespace Reader

variable {α β : Type}

/-- The outcome of a reader at a cursor, and the cursor afterwards. -/
def runAt (reader : Reader α) (cursor : Cursor) : Except DecodeError α × Cursor :=
  StateT.run (ExceptT.run reader) cursor

/-- The position of the cursor, which stays. -/
def position : Reader Nat := do
  return (← get).position

/-- Reads one byte. At the end of the bytes nothing moves. -/
def byte : Reader UInt8 := do
  let cursor ← get
  match cursor.rest with
  | first :: rest =>
    set (Cursor.mk (cursor.position + 1) rest)
    return first
  | [] => throw (cursor.shortage 1)

/-- Reads one byte as a signed number. -/
def signed : Reader Int8 := do
  return (← byte).toInt8

/-- Reads a word, high byte first. With fewer than two bytes left nothing moves. -/
def word : Reader UInt16 := do
  let cursor ← get
  match cursor.rest with
  | hi :: lo :: rest =>
    set (Cursor.mk (cursor.position + 2) rest)
    return Word.ofBytes hi lo
  | _ => throw (cursor.shortage 2)

@[simp] theorem runAt_pure (a : α) (cursor : Cursor) :
    runAt (pure a : Reader α) cursor = (.ok a, cursor) := rfl

@[simp] theorem runAt_throw (e : DecodeError) (cursor : Cursor) :
    runAt (throw e : Reader α) cursor = (.error e, cursor) := rfl

@[simp] theorem runAt_position (cursor : Cursor) :
    position.runAt cursor = (.ok cursor.position, cursor) := rfl

/-- **A bind** goes on with the value of its first reader, from where that reader stopped. -/
theorem runAt_bind (reader : Reader α) (next : α → Reader β) (cursor : Cursor) :
    runAt (reader >>= next) cursor =
      match reader.runAt cursor with
      | (.ok a, cursor') => (next a).runAt cursor'
      | (.error e, cursor') => (.error e, cursor') := by
  simp only [runAt, ExceptT.run_bind, StateT.run_bind]
  rcases StateT.run (ExceptT.run reader) cursor with ⟨_ | _, _⟩ <;> rfl

theorem runAt_bind_of_ok {reader : Reader α} {cursor cursor' : Cursor} {a : α}
    (h : reader.runAt cursor = (.ok a, cursor')) (next : α → Reader β) :
    runAt (reader >>= next) cursor = (next a).runAt cursor' := by
  rw [runAt_bind, h]

theorem runAt_bind_of_error {reader : Reader α} {cursor cursor' : Cursor} {e : DecodeError}
    (h : reader.runAt cursor = (.error e, cursor')) (next : α → Reader β) :
    runAt (reader >>= next) cursor = (.error e, cursor') := by
  rw [runAt_bind, h]

@[simp] theorem runAt_byte_cons (position : Nat) (first : UInt8) (rest : List UInt8) :
    byte.runAt ⟨position, first :: rest⟩ = (.ok first, ⟨position + 1, rest⟩) := rfl

@[simp] theorem runAt_byte_nil (position : Nat) :
    byte.runAt ⟨position, []⟩ = (.error (.unexpectedEnd position 1 0), ⟨position, []⟩) := rfl

@[simp] theorem runAt_word_cons (position : Nat) (hi lo : UInt8) (rest : List UInt8) :
    word.runAt ⟨position, hi :: lo :: rest⟩ =
      (.ok (Word.ofBytes hi lo), ⟨position + 2, rest⟩) := rfl

@[simp] theorem runAt_word_nil (position : Nat) :
    word.runAt ⟨position, []⟩ = (.error (.unexpectedEnd position 2 0), ⟨position, []⟩) := rfl

@[simp] theorem runAt_word_singleton (position : Nat) (last : UInt8) :
    word.runAt ⟨position, [last]⟩ =
      (.error (.unexpectedEnd position 2 1), ⟨position, [last]⟩) := rfl

theorem movesOver_of_byte {cursor next : Cursor} {first : UInt8}
    (h : byte.runAt cursor = (.ok first, next)) : cursor.MovesOver [first] next := by
  rcases cursor with ⟨position, _ | ⟨_, _⟩⟩
  · simp at h
  · simp only [runAt_byte_cons, Prod.mk.injEq, Except.ok.injEq] at h
    obtain ⟨rfl, rfl⟩ := h
    exact ⟨rfl, rfl⟩

theorem movesOver_of_word {cursor next : Cursor} {value : UInt16}
    (h : word.runAt cursor = (.ok value, next)) :
    cursor.MovesOver [Word.high value, Word.low value] next := by
  rcases cursor with ⟨position, _ | ⟨_, _ | ⟨_, _⟩⟩⟩
  · simp at h
  · simp at h
  · simp only [runAt_word_cons, Prod.mk.injEq, Except.ok.injEq] at h
    obtain ⟨rfl, rfl⟩ := h
    exact ⟨by simp, rfl⟩

/-- A bind that succeeds: both its readers do. -/
theorem runAt_bind_eq_ok {reader : Reader α} {next : α → Reader β} {cursor cursor' : Cursor}
    {b : β} (h : runAt (reader >>= next) cursor = (.ok b, cursor')) :
    ∃ a middle, reader.runAt cursor = (.ok a, middle) ∧
      (next a).runAt middle = (.ok b, cursor') := by
  rw [runAt_bind] at h
  split at h
  · next a middle hread => exact ⟨a, middle, hread, h⟩
  · simp at h

/-- A value made of another one that was read: this one is read, and nothing more. -/
theorem runAt_bind_pure_eq_ok {reader : Reader α} {make : α → β} {cursor next : Cursor} {b : β}
    (h : (reader >>= fun a => pure (make a)).runAt cursor = (.ok b, next)) :
    ∃ a, reader.runAt cursor = (.ok a, next) ∧ make a = b := by
  obtain ⟨a, middle, hread, hmake⟩ := runAt_bind_eq_ok h
  simp only [runAt_pure, Prod.mk.injEq, Except.ok.injEq] at hmake
  obtain ⟨rfl, rfl⟩ := hmake
  exact ⟨a, hread, rfl⟩

end Reader

end Bytecode
