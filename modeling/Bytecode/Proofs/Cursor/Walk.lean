import Bytecode.Proofs.Cursor.Numbers
import Bytecode.Proofs.Instruction.Stopping
import Mathlib.Data.List.Induction

/-!
# Walks of a cursor

Whoever reads an array may remember places in it and come back to them, go on after a read that has
failed, and ask for numbers and instructions in any order. The cursor nevertheless stays inside the
array: what lies before it and what is left are always the whole. For a read passes over bytes,
whether it succeeds or fails, and a place that is remembered is one where the cursor stood. A read
of a number does more: it takes the width of the number or nothing, and tells what was missing. An
instruction may be given up behind its first byte, so of its read only the first law holds.

## Main definitions

* `Cursor.Reaches`: a cursor gets to another place by passing over bytes
* `Reader.GoesForward`: a reader only passes over bytes, also when it fails
* `Reader.Takes`: a reader passes over as many bytes as it is wide, or over none
* `Cursor.Read`, `Cursor.Step`: the reads, and the steps of a walk
* `Cursor.Walk`, `Cursor.Walk.run`: a cursor with the places remembered, and where steps lead

## Main results

* `Cursor.Read.goesForward`, `Cursor.Read.takes`: the laws of the reads
* `Cursor.Walk.inside_run`: every place of a walk is one inside the array
* `Cursor.reads_back_and_stays_inside`: numbers are read back, and walks stay inside the array
-/

namespace Bytecode

/-! ## Places that a cursor reaches -/

namespace Cursor

/-- **A cursor reaches a place** by passing over bytes. -/
def Reaches (cursor next : Cursor) : Prop := ∃ run, cursor.MovesOver run next

/-- The cursor behind a number of the bytes that are left. -/
def skip (cursor : Cursor) (width : Nat) : Cursor :=
  ⟨cursor.position + width, cursor.rest.drop width⟩

variable {a b c : Cursor} {bytes : List UInt8}

theorem Reaches.refl (cursor : Cursor) : cursor.Reaches cursor := ⟨[], .refl cursor⟩

theorem Reaches.trans : a.Reaches b → b.Reaches c → a.Reaches c := by
  rintro ⟨run, h⟩ ⟨run', h'⟩
  exact ⟨run ++ run', h.trans h'⟩

theorem Reaches.position_le (h : a.Reaches b) : a.position ≤ b.position := by
  obtain ⟨run, -, hposition⟩ := h
  omega

theorem reaches_skip {width : Nat} (h : width ≤ a.remaining) : a.Reaches (a.skip width) := by
  refine ⟨a.rest.take width, (List.take_append_drop _ _).symm, ?_⟩
  rw [List.length_take_of_le h]
  rfl

/-- A cursor that has moved from the start cuts the array into what it passed and what is left. -/
theorem MovesOver.cut {run : List UInt8} (h : (start bytes).MovesOver run a) :
    bytes = run ++ a.rest ∧ a.position = run.length :=
  ⟨h.1, by rw [h.2, start, Nat.zero_add]⟩

end Cursor

/-! ## Readers that go forward -/

namespace Reader

variable {α β : Type} {reader : Reader α} {width : Nat}

/-- **A reader goes forward**: it only passes over bytes, also when it fails. -/
def GoesForward (reader : Reader α) : Prop :=
  ∀ cursor : Cursor, cursor.Reaches (reader.runAt cursor).2

theorem goesForward_pure (a : α) : (pure a : Reader α).GoesForward := .refl

theorem goesForward_throw (e : DecodeError) : (throw e : Reader α).GoesForward := .refl

theorem goesForward_position : position.GoesForward := .refl

theorem GoesForward.bind {next : α → Reader β} (h : reader.GoesForward)
    (hnext : ∀ a, (next a).GoesForward) : (reader >>= next).GoesForward := by
  intro cursor
  have hreader := h cursor
  rw [runAt_bind]
  split
  · next a middle hread =>
    rw [hread] at hreader
    exact hreader.trans (hnext a middle)
  · next e middle hread =>
    rw [hread] at hreader
    exact hreader

/-- A reader that takes all or nothing goes forward, if it does in success. -/
theorem AllOrNothing.goesForward (h : reader.AllOrNothing)
    (hok : ∀ cursor a next, reader.runAt cursor = (.ok a, next) → cursor.Reaches next) :
    reader.GoesForward := by
  intro cursor
  rcases hread : reader.runAt cursor with ⟨e | a, next⟩
  · rw [h cursor e next hread]
    exact .refl cursor
  · exact hok cursor a next hread

/-- **A reader takes a width**: where as many bytes are left it succeeds and passes over them. Where
fewer are left it fails, tells the shortage, and does not move. -/
structure Takes (reader : Reader α) (width : Nat) : Prop where
  of_le {cursor : Cursor} (h : width ≤ cursor.remaining) :
    ∃ a, reader.runAt cursor = (.ok a, cursor.skip width)
  of_lt {cursor : Cursor} (h : cursor.remaining < width) :
    reader.runAt cursor = (.error (cursor.shortage width), cursor)

theorem takes_byte : byte.Takes 1 where
  of_le := by
    rintro ⟨position, _ | ⟨first, rest⟩⟩ h
    · cases h
    · exact ⟨first, rfl⟩
  of_lt := by
    rintro ⟨position, _ | ⟨first, rest⟩⟩ h
    · rfl
    · simp [Cursor.remaining] at h

theorem takes_word : word.Takes 2 where
  of_le := by
    rintro ⟨position, _ | ⟨hi, _ | ⟨lo, rest⟩⟩⟩ h
    · cases h
    · simp [Cursor.remaining] at h
    · exact ⟨Word.ofBytes hi lo, rfl⟩
  of_lt := by
    rintro ⟨position, _ | ⟨hi, _ | ⟨lo, rest⟩⟩⟩ h
    · rfl
    · rfl
    · exact absurd h (Nat.not_lt.mpr (Nat.le_add_left 2 _))

/-- A value that is made of another one takes the width of this one. -/
theorem Takes.bind_pure (h : reader.Takes width) (make : α → β) :
    (reader >>= fun a => pure (make a)).Takes width where
  of_le hle := by
    obtain ⟨a, hread⟩ := h.of_le hle
    exact ⟨make a, runAt_bind_of_ok hread _⟩
  of_lt hlt := runAt_bind_of_error (h.of_lt hlt) _

theorem Takes.goesForward (h : reader.Takes width) : reader.GoesForward := by
  intro cursor
  rcases Nat.lt_or_ge cursor.remaining width with hlt | hle
  · rw [h.of_lt hlt]
    exact .refl cursor
  · obtain ⟨a, hread⟩ := h.of_le hle
    rw [hread]
    exact Cursor.reaches_skip hle

/-- **A reader that takes a width fails** just where too few bytes are left. -/
theorem Takes.eq_error_iff (h : reader.Takes width) {cursor next : Cursor} {e : DecodeError} :
    reader.runAt cursor = (.error e, next) ↔
      cursor.remaining < width ∧ e = cursor.shortage width ∧ next = cursor := by
  constructor
  · intro hread
    rcases Nat.lt_or_ge cursor.remaining width with hlt | hle
    · rw [h.of_lt hlt] at hread
      cases hread
      exact ⟨hlt, rfl, rfl⟩
    · obtain ⟨a, hok⟩ := h.of_le hle
      rw [hok] at hread
      cases hread
  · rintro ⟨hlt, rfl, rfl⟩
    exact h.of_lt hlt

theorem goesForward_opcode : opcode.GoesForward := by
  refine goesForward_position.bind fun offset => takes_byte.goesForward.bind fun first => ?_
  split
  · exact goesForward_pure _
  · exact goesForward_throw _

end Reader

open Reader

theorem NumberType.takes_read (type : NumberType) : type.read.Takes type.width := by
  cases type with
  | byte => exact takes_byte.bind_pure _
  | signed => exact (takes_byte.bind_pure _).bind_pure _
  | word => exact takes_word.bind_pure _

theorem Instruction.goesForward_decode (head : Head) : (decode head).GoesForward := by
  -- a decoder that fails has not moved at all
  refine (allOrNothing_decode head).goesForward fun cursor instruction next h => ?_
  obtain ⟨-, run, -, hmoves⟩ := decode_eq_ok h
  exact ⟨run, hmoves⟩

/-- **Reading an instruction** goes forward, wherever it gives up. -/
theorem Instruction.goesForward_read (allowWide : Bool) : (read allowWide).GoesForward := by
  refine goesForward_position.bind fun start => goesForward_opcode.bind fun first => ?_
  split
  · split
    · refine goesForward_opcode.bind fun second => ?_
      split
      · exact goesForward_decode _
      · exact goesForward_throw _
    · exact goesForward_throw _
  · exact goesForward_decode _

namespace Cursor

/-! ## Walks -/

/-- **A read** that a cursor can be asked for. -/
inductive Read where
  | number (type : NumberType)
  | instruction (allowWide : Bool)
  -- the reference behind the opcode of the two-byte form
  | longReference

namespace Read

/-- What a read gives. -/
def Result : Read → Type
  | number _ => Number
  | instruction _ => Instruction
  | longReference => ConstantRef

/-- The reader of a read. -/
def reader : (read : Read) → Reader read.Result
  | number type => type.read
  | instruction allowWide => Instruction.read allowWide
  | longReference => ConstantRef.decodeLong

/-- The number of bytes that a read asks for, if it is the same everywhere. -/
def width? : Read → Option Nat
  | number type => some type.width
  | instruction _ => none
  | longReference => some 2

/-- **A read of known width** takes this width. -/
theorem takes (read : Read) {width : Nat} (h : read.width? = some width) :
    read.reader.Takes width := by
  cases read with
  | number type =>
    cases h
    exact type.takes_read
  | instruction allowWide => cases h
  | longReference =>
    cases h
    exact takes_word.bind_pure _

/-- **Every read goes forward**. -/
theorem goesForward (read : Read) : read.reader.GoesForward := by
  cases read with
  | number type => exact type.takes_read.goesForward
  | instruction allowWide => exact Instruction.goesForward_read allowWide
  | longReference => exact (longReference.takes rfl).goesForward

end Read

/-- **A step of a walk**. -/
inductive Step where
  | read (read : Read)
  -- the place of the cursor is remembered
  | save
  -- back to a place that is remembered; the latest has the number 0
  | restore (place : Nat)

/-- The step goes back to a place. -/
def Step.isRestore : Step → Bool
  | restore _ => true
  | _ => false

/-- **A walk**: a cursor, and the places that are remembered. -/
structure Walk where
  cursor : Cursor
  -- the latest first
  saved : List Cursor

namespace Walk

variable {bytes : List UInt8} {walk : Walk} {step : Step} {steps : List Step}

/-- A walk begins before the first byte, and this place is remembered. -/
def start (bytes : List UInt8) : Walk := ⟨.start bytes, [.start bytes]⟩

/-- The walk after one more step. A read leaves the cursor where it stops, in success or in failure,
and no step back leads to a place that is not remembered. -/
def after (walk : Walk) : Step → Walk
  | .read read => { walk with cursor := (read.reader.runAt walk.cursor).2 }
  | .save => { walk with saved := walk.cursor :: walk.saved }
  | .restore place => { walk with cursor := walk.saved[place]?.getD walk.cursor }

/-- **The walk after steps**. -/
def run (walk : Walk) (steps : List Step) : Walk := steps.foldl after walk

theorem run_append (walk : Walk) (steps further : List Step) :
    walk.run (steps ++ further) = (walk.run steps).run further := List.foldl_append

/-- **A walk is inside an array**: so are the cursor and all places that are remembered. -/
def Inside (bytes : List UInt8) (walk : Walk) : Prop :=
  ∀ place ∈ walk.cursor :: walk.saved, (Cursor.start bytes).Reaches place

theorem inside_start : (start bytes).Inside bytes := by
  intro place hplace
  obtain rfl : place = .start bytes := by simpa [start] using hplace
  exact .refl _

/-- **A step stays inside**. -/
theorem Inside.after (h : walk.Inside bytes) (step : Step) : (walk.after step).Inside bytes := by
  obtain ⟨hcursor, hsaved⟩ := List.forall_mem_cons.mp h
  cases step with
  | read read =>
    exact List.forall_mem_cons.mpr ⟨hcursor.trans (read.goesForward walk.cursor), hsaved⟩
  | save => exact List.forall_mem_cons.mpr ⟨hcursor, h⟩
  | restore place =>
    refine List.forall_mem_cons.mpr ⟨?_, hsaved⟩
    show (Cursor.start bytes).Reaches (walk.saved[place]?.getD walk.cursor)
    cases hplace : walk.saved[place]? with
    -- nothing is remembered under this number, and the cursor stays
    | none => exact hcursor
    | some saved => exact hsaved saved (List.mem_of_getElem? hplace)

/-- **Every place of a walk** is one inside the array. -/
theorem inside_run (bytes : List UInt8) (steps : List Step) :
    ((start bytes).run steps).Inside bytes := by
  induction steps using List.reverseRecOn with
  | nil => exact inside_start
  | append_singleton steps step ih =>
    rw [run_append]
    exact ih.after step

/-- **A step that is no step back** goes forward. -/
theorem reaches_after (h : step.isRestore = false) :
    walk.cursor.Reaches (walk.after step).cursor := by
  cases step with
  | read read => exact read.goesForward walk.cursor
  | save => exact .refl _
  | restore place => cases h

theorem reaches_run (h : ∀ step ∈ steps, step.isRestore = false) :
    walk.cursor.Reaches (walk.run steps).cursor := by
  induction steps generalizing walk with
  | nil => exact .refl _
  | cons step steps ih =>
    obtain ⟨hstep, hsteps⟩ := List.forall_mem_cons.mp h
    exact (reaches_after hstep).trans (ih hsteps)

end Walk

/-! ## Consistency -/

/-- **A cursor is consistent with an array**: before it and after it lies the whole array, and a
read of known width fails just where too few bytes are left. Then it tells how many, and nothing
moves. -/
structure Consistent (bytes : List UInt8) (cursor : Cursor) : Prop where
  position_add_remaining : cursor.position + cursor.remaining = bytes.length
  rest_eq : cursor.rest = bytes.drop cursor.position
  isEmpty_iff : cursor.isEmpty = true ↔ cursor.position = bytes.length
  fails_iff : ∀ (read : Read) (width : Nat), read.width? = some width → ∀ e next,
    read.reader.runAt cursor = (.error e, next) ↔
      cursor.remaining < width ∧ e = .unexpectedEnd cursor.position width cursor.remaining ∧
        next = cursor

theorem Reaches.consistent (h : (start bytes).Reaches a) : Consistent bytes a := by
  obtain ⟨run, hmoves⟩ := h
  obtain ⟨hbytes, hposition⟩ := hmoves.cut
  have hsum : a.position + a.remaining = bytes.length := by
    rw [hbytes, hposition, List.length_append, remaining]
  refine ⟨hsum, ?_, ?_, fun read width hwidth e next => (read.takes hwidth).eq_error_iff⟩
  · rw [hbytes, hposition, List.drop_left]
  · rw [isEmpty, List.isEmpty_iff_length_eq_zero, ← remaining]
    omega

/-- **Numbers are read back, and walks stay inside the array**. Numbers of any types, written into
an empty buffer, are read back by their types, and nothing is left; and numbers that were read, when
written again, give the bytes passed over. After any steps the cursor and the places remembered are
consistent with the array, and only a step back takes the cursor back. -/
theorem reads_back_and_stays_inside :
    (∀ numbers : List Number, ∃ held next,
      (Number.writeAll Sink.buffer numbers).runAt #[] = (.ok (), held) ∧
        (NumberType.readAll (numbers.map Number.type)).runAt (.start held.toList) =
          (.ok numbers, next) ∧
        next.isEmpty = true) ∧
    (∀ bytes types numbers next,
      (NumberType.readAll types).runAt (.start bytes) = (.ok numbers, next) →
        (Number.writeAll Sink.buffer numbers).runAt #[] =
          (.ok (), (bytes.take next.position).toArray)) ∧
    ∀ (bytes : List UInt8) (steps : List Step),
      (∀ place ∈ ((Walk.start bytes).run steps).cursor :: ((Walk.start bytes).run steps).saved,
          Consistent bytes place) ∧
        ∀ further : List Step, (∀ step ∈ further, step.isRestore = false) →
          ((Walk.start bytes).run steps).cursor.position ≤
            ((Walk.start bytes).run (steps ++ further)).cursor.position := by
  refine ⟨fun numbers => ?_, fun bytes types numbers next h => ?_, fun bytes steps => ⟨?_, ?_⟩⟩
  · have hread := NumberType.runAt_readAll_bytes numbers 0 []
    rw [List.append_nil] at hread
    refine ⟨(numbers.flatMap Number.bytes).toArray, _, ?_, hread, rfl⟩
    rw [Number.runAt_writeAll_buffer, Array.empty_append]
  · obtain ⟨hbytes, hposition⟩ := (NumberType.readAll_eq_ok h).2.cut
    rw [Number.runAt_writeAll_buffer, Array.empty_append, hbytes, hposition, List.take_left]
  · intro place hplace
    exact (Walk.inside_run bytes steps place hplace).consistent
  · intro further hfurther
    rw [Walk.run_append]
    exact (Walk.reaches_run hfurther).position_le

/-- Two numbers read and written again; and a walk that comes back from a byte which is no opcode,
finds one byte of two, and goes on. -/
theorem reads_back_and_stays_inside_restored :
    (NumberType.readAll [.word, .signed]).runAt (.start [0x12, 0x34, 0xFE, 0xAB]) =
        (.ok [.word 0x1234, .signed (-2)], ⟨3, [0xAB]⟩) ∧
      (Number.writeAll Sink.buffer [.word 0x1234, .signed (-2)]).runAt #[] =
        (.ok (), #[0x12, 0x34, 0xFE]) ∧
      ((Walk.start [0x12, 0x34, 0x56]).run
          [.read (.number .word), .save, .read (.instruction true), .restore 0]).cursor =
        ⟨2, [0x56]⟩ ∧
      ConstantRef.decodeLong.runAt ⟨2, [0x56]⟩ =
        (.error (.unexpectedEnd 2 2 1), ⟨2, [0x56]⟩) ∧
      2 ≤ ((Walk.start [0x12, 0x34, 0x56]).run
          ([.read (.number .word), .save, .read (.instruction true), .restore 0] ++
            [.read .longReference, .read (.number .byte)])).cursor.position := by
  have hread : (NumberType.readAll [.word, .signed]).runAt (.start [0x12, 0x34, 0xFE, 0xAB]) =
      (.ok [.word 0x1234, .signed (-2)], ⟨3, [0xAB]⟩) := rfl
  obtain ⟨-, hwrite, hwalk⟩ := reads_back_and_stays_inside
  obtain ⟨hconsistent, hforward⟩ := hwalk [0x12, 0x34, 0x56]
    [.read (.number .word), .save, .read (.instruction true), .restore 0]
  have hcursor := hconsistent _ List.mem_cons_self
  refine ⟨hread, hwrite _ _ _ _ hread, rfl, ?_, hforward _ (by decide)⟩
  exact (hcursor.fails_iff .longReference 2 rfl _ _).mpr ⟨by decide, rfl, rfl⟩

end Cursor

end Bytecode
