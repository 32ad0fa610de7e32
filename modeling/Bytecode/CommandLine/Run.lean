import Bytecode.CommandLine.Settings
import Bytecode.Report
import Bytecode.Statistics

/-!
# A run of the program

The program lists the code of the hex text among its arguments; without one, that of every line of
its input. A text that fails is reported, and the run goes on. Only refused arguments and input
that is not UTF-8 end a run early.

## Main definitions

* `Output`: what is written to the output and as errors
* `Settings.process`: what one text writes
* `inputLines`: the lines of the input
* `Settings.processLines`: what lines write
* `Outcome`, `run`: the outcome of a run
-/

namespace Bytecode.CommandLine

/-- **What a run writes**: to the output, and as errors. -/
structure Output where
  out : String := ""
  err : String := ""
  deriving DecidableEq

/-- First the one, and then the other. -/
def Output.append (a b : Output) : Output := ⟨a.out ++ b.out, a.err ++ b.err⟩

/-- **What one text writes**: its listing, and statistics if they are asked for, or else its failure
in colours. -/
def Settings.process (settings : Settings) (text : String) : Output :=
  match Code.ofHex settings.decodeOptions text with
  | .ok code =>
    let listing := code.listing settings.listingOptions none
    if settings.stats then ⟨listing ++ "\n" ++ (Statistics.ofCode code).report, ""⟩
    else ⟨listing, ""⟩
  | .error failure => ⟨"", failure.render true⟩

/-- A line, given in reverse order, without a carriage return at its end. -/
def dropReturn : List UInt8 → List UInt8
  | 13 :: rest => rest
  | line => line

/-- The lines of bytes, after the lines `found` and the bytes `current` of the next line, both in
reverse order. -/
def linesFrom (found : List (List UInt8)) (current : List UInt8) :
    List UInt8 → List (List UInt8)
  | [] => if current.isEmpty then found.reverse else (current.reverse :: found).reverse
  | byte :: rest =>
    if byte = 10 then linesFrom ((dropReturn current).reverse :: found) [] rest
    else linesFrom found (byte :: current) rest

/-- **The lines of the input**. A line feed ends a line, together with a carriage return before
it; the last line may lack it. -/
def inputLines (bytes : List UInt8) : List (List UInt8) := linesFrom [] [] bytes

/-- The text of a line in UTF-8. -/
def decodeLine? (line : List UInt8) : Option String :=
  String.fromUTF8? (ByteArray.mk line.toArray)

/-- **The outcome of a run**. -/
structure Outcome where
  exitCode : UInt32
  output : Output
  deriving DecidableEq

/-- **What lines write**, after what was written before. Blank lines write nothing, and a line that
is not UTF-8 ends the run. -/
def Settings.processLines (settings : Settings) (written : Output) :
    List (List UInt8) → Outcome
  | [] => ⟨0, written⟩
  | line :: rest =>
    match decodeLine? line with
    | some text =>
      if text.toList.all Text.isBlank then settings.processLines written rest
      else settings.processLines (written.append (settings.process text)) rest
    | none => ⟨1, written.append ⟨"", "error: stream did not contain valid UTF-8\n"⟩⟩

/-- A run with given settings on the bytes of the input. They count only without a hex text. -/
def Settings.run (settings : Settings) (input : List UInt8) : Outcome :=
  match settings.hex with
  | some text => ⟨0, settings.process text⟩
  | none => settings.processLines {} (inputLines input)

/-- **A run of the program** with arguments, on the bytes of its input. -/
def run (arguments : List String) (input : List UInt8) : Outcome :=
  match Settings.parse arguments with
  | .ok settings => settings.run input
  | .error refusal => ⟨2, ⟨"", refusal.message ++ "\n"⟩⟩

end Bytecode.CommandLine
