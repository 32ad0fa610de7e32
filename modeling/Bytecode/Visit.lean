import Bytecode.Code
import Bytecode.LoadedValue

/-!
# Visits

Whoever goes through code meets each instruction several times: once for every role it plays, and
at last for itself. The order of the roles is fixed. A pass over code is a fold over its visits, so
a pass that only asks for, say, the words pushed never has to tell instructions apart.

## Main definitions

* `Instruction.type`: the type of the value pushed or stored
* `Role`, `Visit`: a role with what it is about, and a visit
* `Instruction.visits`, `Code.visits`: the visits of an instruction and of code
-/

namespace Bytecode

/-- **The type of the value** that an instruction pushes or stores. Only that of a constant has to
be looked up. -/
def Instruction.type (source : ConstantSource) : Instruction → Except ResolveError ValueType
  | iconst _ => .ok .int
  | bipush _ => .ok .byte
  | ldc ref => ref.type source
  | fstore _ => .ok .float

/-- A type that is known, or that a reference to a constant decides. -/
inductive StaticType where
  | known (type : ValueType)
  | loaded (ref : ConstantRef)
  deriving DecidableEq

/-- The type itself, found in a source of constants if it has to be. -/
def StaticType.resolve (source : ConstantSource) : StaticType → Except ResolveError ValueType
  | known type => .ok type
  | loaded ref => ref.type source

/-- **A role of an instruction**. -/
inductive Role where
  -- it only pushes
  | push (words : Nat)
  -- it only pops
  | pop (words : Nat)
  | stackProducer (words : Nat)
  | stackConsumer (words : Nat)
  | typed (type : StaticType)
  -- it pushes a value that is part of it
  | constantPush (value : Int)
  | thrower (failures : List RuntimeFailure)
  | poolReference (index : UInt16)
  | localVariable (slot : UInt16)
  | store (slot : UInt16)
  | itself (instruction : Instruction)
  deriving DecidableEq

/-- **A visit** of an instruction in one of its roles. -/
structure Visit where
  opcode : Opcode
  length : Nat
  role : Role
  deriving DecidableEq

/-- The roles of an instruction, in the order in which it is visited. -/
def Instruction.roles : Instruction → List Role
  | iconst value =>
    [.push 1, .stackProducer 1, .typed (.known .int), .constantPush value.toInt,
      .itself (iconst value)]
  | bipush value =>
    [.push 1, .stackProducer 1, .typed (.known .byte), .constantPush value.toInt,
      .itself (bipush value)]
  | ldc ref =>
    [.push 1, .stackProducer 1, .typed (.loaded ref), .thrower [.symbolicResolution],
      .poolReference ref.index, .itself (ldc ref)]
  | fstore slot =>
    [.pop 1, .stackConsumer 1, .typed (.known .float), .localVariable slot.index,
      .store slot.index, .itself (fstore slot)]

/-- **The visits of an instruction**, the one for itself at last. -/
def Instruction.visits (instruction : Instruction) : List Visit :=
  instruction.roles.map fun role => ⟨instruction.opcode, instruction.length, role⟩

/-- **The visits of code**, instruction by instruction. -/
def Code.visits (code : Code) : List Visit :=
  code.instructions.flatMap Instruction.visits

end Bytecode
