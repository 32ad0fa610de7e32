import Bytecode.Cursor
import Bytecode.Sink

/-!
# Numbers in a stream of bytes

Bytes, signed bytes and words may be written one after another, of any type in any order. Nothing
in the bytes tells where a number ends or of which type it is; but whoever reads numbers of the same
types in the same order gets them back, whatever follows. Conversely numbers that were read, written
again, give the bytes that were passed over. So a source and a buffer are inverse to each other.

## Main definitions

* `Number`, `NumberType`: the numbers that are written at once, and their types
* `Number.bytes`: a number as written
* `Number.writeAll`, `NumberType.readAll`: numbers one after another

## Main results

* `Number.runAt_writeAll_buffer`: a buffer receives the bytes of the numbers
* `NumberType.runAt_readAll_bytes`: numbers are read back as they were written
* `NumberType.readAll_eq_ok`: numbers that are read stood there as they would be written
-/

namespace Bytecode

open Reader

/-- **The types of numbers** that a cursor reads and a sink takes. -/
inductive NumberType where
  | byte
  | signed
  | word
  deriving DecidableEq

/-- **A number** of one of these types. -/
inductive Number where
  | byte (value : UInt8)
  | signed (value : Int8)
  | word (value : UInt16)
  deriving DecidableEq

/-- The number of bytes of a number. -/
def NumberType.width : NumberType → Nat
  | byte => 1
  | signed => 1
  | word => 2

/-- Reads one number. -/
def NumberType.read : NumberType → Reader Number
  | byte => return .byte (← Reader.byte)
  | signed => return .signed (← Reader.signed)
  | word => return .word (← Reader.word)

/-- **Reads numbers** of given types, one after another. -/
def NumberType.readAll : List NumberType → Reader (List Number)
  | [] => return []
  | type :: types => do
    let number ← type.read
    return number :: (← readAll types)

namespace Number

variable {σ ε : Type}

/-- The type of a number. -/
def type : Number → NumberType
  | byte _ => .byte
  | signed _ => .signed
  | word _ => .word

/-- The number as written. -/
def bytes : Number → List UInt8
  | byte value => [value]
  | signed value => [value.toUInt8]
  | word value => [Word.high value, Word.low value]

/-- Writes one number. -/
def write (sink : Sink σ ε) : Number → Writer σ ε Unit
  | byte value => sink.byte value
  | signed value => sink.signed value
  | word value => sink.word value

/-- **Writes numbers** one after another. -/
def writeAll (sink : Sink σ ε) : List Number → Writer σ ε Unit
  | [] => pure ()
  | number :: numbers => do
    number.write sink
    writeAll sink numbers

/-! ## Writing -/

theorem runAt_write_buffer (number : Number) (held : Array UInt8) :
    (number.write Sink.buffer).runAt held = (.ok (), held ++ number.bytes.toArray) := by
  cases number <;> rfl

/-- **A buffer receives the bytes** of the numbers, one after another. -/
theorem runAt_writeAll_buffer (numbers : List Number) (held : Array UInt8) :
    (writeAll Sink.buffer numbers).runAt held =
      (.ok (), held ++ (numbers.flatMap bytes).toArray) := by
  induction numbers generalizing held with
  | nil => simp [writeAll]
  | cons number numbers ih =>
    rw [writeAll, Writer.runAt_bind_of_ok (runAt_write_buffer number held), ih]
    simp [Array.append_assoc]

end Number

/-! ## Reading -/

/-- **A number is read back** as it was written, whatever follows. -/
theorem Number.runAt_read_bytes (number : Number) (position : Nat) (rest : List UInt8) :
    number.type.read.runAt ⟨position, number.bytes ++ rest⟩ =
      (.ok number, ⟨position + number.bytes.length, rest⟩) := by
  cases number with
  | byte value => rfl
  | signed value =>
    show (Except.ok (Number.signed value.toUInt8.toInt8), _) = _
    rw [Int8.toInt8_toUInt8]
    rfl
  | word value =>
    show (Except.ok (Number.word (Word.ofBytes (Word.high value) (Word.low value))), _) = _
    rw [Word.ofBytes_high_low]
    rfl

namespace NumberType

variable {type : NumberType} {types : List NumberType} {number : Number} {numbers : List Number}
  {cursor next : Cursor}

theorem read_eq_ok (h : type.read.runAt cursor = (.ok number, next)) :
    number.type = type ∧ cursor.MovesOver number.bytes next := by
  cases type with
  | byte =>
    obtain ⟨value, hread, rfl⟩ := runAt_bind_pure_eq_ok h
    exact ⟨rfl, movesOver_of_byte hread⟩
  | signed =>
    obtain ⟨value, hread, rfl⟩ := runAt_bind_pure_eq_ok h
    obtain ⟨first, hbyte, rfl⟩ := runAt_bind_pure_eq_ok hread
    exact ⟨rfl, by simpa [Number.bytes] using movesOver_of_byte hbyte⟩
  | word =>
    obtain ⟨value, hread, rfl⟩ := runAt_bind_pure_eq_ok h
    exact ⟨rfl, movesOver_of_word hread⟩

/-- **Numbers are read back** as they were written, by their types and whatever follows. -/
theorem runAt_readAll_bytes (numbers : List Number) (position : Nat) (rest : List UInt8) :
    (readAll (numbers.map Number.type)).runAt ⟨position, numbers.flatMap Number.bytes ++ rest⟩ =
      (.ok numbers, ⟨position + (numbers.flatMap Number.bytes).length, rest⟩) := by
  induction numbers generalizing position with
  | nil => rfl
  | cons number numbers ih =>
    rw [List.map_cons, readAll, List.flatMap_cons, List.append_assoc,
      runAt_bind_of_ok (number.runAt_read_bytes _ _), runAt_bind_of_ok (ih _), runAt_pure,
      List.length_append, Nat.add_assoc]

/-- **Numbers that are read** have the types asked for, and the cursor moves over their bytes. -/
theorem readAll_eq_ok (h : (readAll types).runAt cursor = (.ok numbers, next)) :
    numbers.map Number.type = types ∧ cursor.MovesOver (numbers.flatMap Number.bytes) next := by
  induction types generalizing numbers cursor with
  | nil =>
    cases h
    exact ⟨rfl, .refl _⟩
  | cons type types ih =>
    rw [readAll] at h
    obtain ⟨number, middle, hfirst, h⟩ := runAt_bind_eq_ok h
    obtain ⟨others, hothers, rfl⟩ := runAt_bind_pure_eq_ok h
    obtain ⟨rfl, hmoves⟩ := read_eq_ok hfirst
    obtain ⟨rfl, hmoves'⟩ := ih hothers
    exact ⟨rfl, hmoves.trans hmoves'⟩

end NumberType

end Bytecode
