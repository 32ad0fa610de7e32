import Bytecode.Hex.Digit

/-!
# Hex dumps

A dump has two upper-case digits for each byte, and sixteen bytes on a line. Each byte is followed
by one character, so that a byte is found at three times its place.

## Main definitions

* `Hex.dump`: the dump of bytes

## Main results

* `Hex.length_dump`: three characters for each byte
-/

namespace Bytecode.Hex

/-- What follows the byte at a place: the end of the line after every sixteenth byte, and else a
space. -/
def dumpSeparator (place : Nat) : Char := if place % 16 = 15 then '\n' else ' '

/-- **The dump of bytes**. -/
def dump (bytes : List UInt8) : List Char :=
  bytes.zipIdx.flatMap fun (byte, place) => upperPair byte ++ [dumpSeparator place]

@[simp] theorem length_dump (bytes : List UInt8) : (dump bytes).length = 3 * bytes.length := by
  suffices h : ∀ place, ((bytes.zipIdx place).flatMap fun (byte, place) =>
      upperPair byte ++ [dumpSeparator place]).length = 3 * bytes.length from h 0
  induction bytes with
  | nil => intro place; rfl
  | cons byte rest ih =>
    intro place
    simp only [List.zipIdx_cons, List.flatMap_cons, List.length_append, ih, List.length_cons]
    simp [upperPair]
    omega

end Bytecode.Hex
