import Bytecode.Hex.Digit

/-!
# Causes of a failed decoding

Every cause but an overlong array names the offset at which decoding stopped.

## Main definitions

* `DecodeError`, `DecodeError.offset?`: the causes, and where each points
* `DecodeError.message`: their wording
-/

namespace Bytecode

/-- **Why bytes are no code**. -/
inductive DecodeError where
  -- a read of `needed` bytes at `offset` found only `available`
  | unexpectedEnd (offset needed available : Nat)
  -- the byte at `offset` is no opcode, or not one that is admitted there
  | unknownOpcode (byte : UInt8) (offset : Nat)
  -- a `wide` mark stands before an opcode without wide form, or where marks are refused
  | illegalWide (byte : UInt8) (offset : Nat)
  -- the array has more than `limit` bytes
  | codeTooLong (length limit : Nat)
  deriving DecidableEq

namespace DecodeError

/-- The offset at which decoding stopped; an overlong array has none. -/
def offset? : DecodeError → Option Nat
  | unexpectedEnd offset _ _ => some offset
  | unknownOpcode _ offset => some offset
  | illegalWide _ offset => some offset
  | codeTooLong _ _ => none

/-- An opcode byte in messages: two upper-case digits after `0x`. -/
def byteText (byte : UInt8) : String :=
  "0x" ++ String.ofList (Hex.upperPair byte)

/-- The wording of a cause. -/
def message : DecodeError → String
  | unexpectedEnd offset needed available =>
    s!"unexpected end of bytecode at offset {offset}: needed {needed} byte(s), " ++
      s!"{available} available"
  | unknownOpcode byte offset => s!"unknown opcode {byteText byte} at offset {offset}"
  | illegalWide byte offset =>
    s!"illegal wide prefix before opcode {byteText byte} at offset {offset}"
  | codeTooLong length limit => s!"code array of {length} bytes exceeds the maximum of {limit}"

end DecodeError

end Bytecode
