import Bytecode.CommandLine.Run

/-!
# The program

Lists bytecode given in hex, as an argument or line by line on standard input.
-/

namespace Bytecode.CommandLine

/-- Reads a stream to its end, after the bytes read before. -/
partial def readRest (stream : IO.FS.Stream) (before : ByteArray) : IO ByteArray := do
  let chunk ← stream.read 65536
  if chunk.isEmpty then return before else readRest stream (before ++ chunk)

/-- The settings of the arguments leave the code to standard input. -/
def readsInput (arguments : List String) : Bool :=
  match Settings.parse arguments with
  | .ok settings => settings.hex.isNone
  | .error _ => false

end Bytecode.CommandLine

/-- Reads standard input if the arguments leave the code to it, and writes what the run writes. -/
def main (arguments : List String) : IO UInt32 := do
  let input ←
    if Bytecode.CommandLine.readsInput arguments then
      Bytecode.CommandLine.readRest (← IO.getStdin) ByteArray.empty
    else pure ByteArray.empty
  let outcome := Bytecode.CommandLine.run arguments input.toList
  (← IO.getStdout).putStr outcome.output.out
  (← IO.getStderr).putStr outcome.output.err
  return outcome.exitCode
