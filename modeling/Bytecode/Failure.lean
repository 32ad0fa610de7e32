import Bytecode.Hex.Scan
import Bytecode.Listing

/-!
# From hex text to a listing

A text is read as bytes, the bytes are decoded, and the code is listed. A failure keeps what was
being read, so that the place at fault can be shown in it.

## Main definitions

* `Failure`, `Failure.message`: the failures on the way
* `bytesOfHex`, `Code.ofBytes`, `Code.ofHex`: the steps, with failures that keep what was read
* `listingOfHex`: the whole way
-/

namespace Bytecode

/-- **A failure** on the way from hex text to a listing. -/
inductive Failure where
  | hex (error : HexError) (input : String)
  | decode (error : DecodeError) (bytes : List UInt8)
  deriving DecidableEq

/-- The wording of a failure. -/
def Failure.message : Failure → String
  | hex error _ => "invalid hex input: " ++ error.message
  | decode error _ => error.message

/-- The bytes of a text, or the failure that keeps the text. -/
def bytesOfHex (text : String) : Except Failure (List UInt8) :=
  (Hex.parse text.toList).mapError fun error => .hex error text

/-- The code of a byte array, or the failure that keeps the array. -/
def Code.ofBytes (options : DecodeOptions) (bytes : List UInt8) : Except Failure Code :=
  (Code.decode options bytes).mapError fun error => .decode error bytes

/-- The code of a hex text. -/
def Code.ofHex (options : DecodeOptions) (text : String) : Except Failure Code := do
  Code.ofBytes options (← bytesOfHex text)

/-- **The listing of a hex text**. -/
def listingOfHex (decoding : DecodeOptions) (listing : ListingOptions)
    (source : Option ConstantSource) (text : String) : Except Failure String := do
  return (← Code.ofHex decoding text).listing listing source

end Bytecode
