import Bytecode.Listing

/-!
# Arguments of the command line

The program takes three switches, a limit with a value, and at most one hex text. Each may be given
once. After `--` nothing is an option any more, and a lone `-` never is one.

## Main definitions

* `Settings`: what the arguments ask for
* `Argument`, `Argument.ofText`: one argument, told apart by its spelling
* `Settings.parse`: the settings of a list of arguments
* `Settings.decodeOptions`, `Settings.listingOptions`: what the settings mean for code
-/

namespace Bytecode.CommandLine

/-- **What the arguments ask for**. -/
structure Settings where
  verbose : Bool := false
  -- the mark `wide` is refused
  noWide : Bool := false
  stats : Bool := false
  maxCodeLength : Option Nat := none
  hex : Option String := none
  deriving DecidableEq

/-- Why arguments are refused. -/
inductive UsageError where
  | unknownOption (text : String)
  | repeated (name : String)
  | unexpectedValue (text : String)
  | missingValue (name : String)
  | notACount (text : String)
  | unexpectedArgument (text : String)
  deriving DecidableEq

/-- The wording of a refusal. -/
def UsageError.message : UsageError → String
  | unknownOption text => s!"error: unexpected argument '{text}' found"
  | repeated name => s!"error: the argument '{name}' cannot be used multiple times"
  | unexpectedValue text => s!"error: unexpected value in '{text}'"
  | missingValue name => s!"error: a value is required for '{name}'"
  | notACount text => s!"error: invalid value '{text}'"
  | unexpectedArgument text => s!"error: unexpected argument '{text}' found"

/-- The switches. -/
inductive Switch where
  | verbose
  | noWide
  | stats
  deriving DecidableEq

/-- The long name of a switch. -/
def Switch.name : Switch → String
  | verbose => "--verbose"
  | noWide => "--no-wide"
  | stats => "--stats"

/-- The long name of the limit. -/
def limitName : String := "--max-code-length"

/-- **An argument**, told apart by its spelling. -/
inductive Argument where
  | switch (switch : Switch)
  -- the limit, with a value in the same argument or in the next one
  | limit (value : Option String)
  | endOfOptions
  | hex (text : String)
  | wrong (error : UsageError)
  deriving DecidableEq

/-- The name and the value of a long option: what stands before and after the first equals
sign. -/
def splitValue (text : String) : String × Option String :=
  let name := text.toList.takeWhile (· != '=')
  match text.toList.dropWhile (· != '=') with
  | [] => (String.ofList name, none)
  | _ :: value => (String.ofList name, some (String.ofList value))

/-- A long option. Only the limit has a value. -/
def Argument.ofLong (text : String) : Argument :=
  let (name, value) := splitValue text
  if name = limitName then .limit value
  else
    match [Switch.verbose, .noWide, .stats].find? fun known => known.name == name with
    | some known => if value.isNone then .switch known else .wrong (.unexpectedValue text)
    | none => .wrong (.unknownOption text)

/-- **An argument told apart by its spelling**. Of short options there is only `-v`. -/
def Argument.ofText (text : String) : Argument :=
  match text.toList with
  | ['-', '-'] => .endOfOptions
  | '-' :: '-' :: _ => .ofLong text
  | ['-', 'v'] => .switch .verbose
  | '-' :: _ :: _ => .wrong (.unknownOption text)
  | _ => .hex text

/-- The value of a limit: decimal digits after at most one plus sign, below two to the sixty-fourth
power. -/
def parseCount (text : String) : Except UsageError Nat :=
  let digits :=
    match text.toList with
    | '+' :: rest => rest
    | all => all
  let value := digits.foldl (fun value c => 10 * value + (c.toNat - '0'.toNat)) 0
  if !digits.isEmpty && digits.all Char.isDigit && value < UInt64.size then .ok value
  else .error (.notACount text)

namespace Settings

/-- Turns a switch on, once. -/
def turnOn (settings : Settings) (switch : Switch) : Except UsageError Settings :=
  match switch with
  | .verbose =>
    if settings.verbose then .error (.repeated switch.name) else .ok { settings with verbose := true }
  | .noWide =>
    if settings.noWide then .error (.repeated switch.name) else .ok { settings with noWide := true }
  | .stats =>
    if settings.stats then .error (.repeated switch.name) else .ok { settings with stats := true }

/-- Sets the limit, once. -/
def setLimit (settings : Settings) (value : String) : Except UsageError Settings := do
  let count ← parseCount value
  if settings.maxCodeLength.isSome then throw (.repeated limitName)
  else return { settings with maxCodeLength := some count }

/-- Sets the hex text, once. -/
def setHex (settings : Settings) (text : String) : Except UsageError Settings :=
  if settings.hex.isSome then .error (.unexpectedArgument text)
  else .ok { settings with hex := some text }

/-- The settings after further arguments. The value of a limit in the next argument must not look
like an option. -/
def parseFrom (settings : Settings) : List String → Except UsageError Settings
  | [] => .ok settings
  | text :: rest =>
    match Argument.ofText text with
    | .switch switch => do parseFrom (← settings.turnOn switch) rest
    | .limit (some value) => do parseFrom (← settings.setLimit value) rest
    | .limit none =>
      match rest with
      | [] => .error (.missingValue limitName)
      | value :: rest =>
        if value.toList.head? = some '-' then .error (.missingValue limitName)
        else do parseFrom (← settings.setLimit value) rest
    | .endOfOptions => rest.foldlM setHex settings
    | .hex text => do parseFrom (← settings.setHex text) rest
    | .wrong error => .error error

/-- **The settings of a list of arguments**. -/
def parse (arguments : List String) : Except UsageError Settings := parseFrom {} arguments

/-- What is admitted as code. -/
def decodeOptions (settings : Settings) : DecodeOptions where
  maxCodeLength := settings.maxCodeLength.getD 65535
  allowWide := !settings.noWide

/-- What a listing shows. -/
def listingOptions (settings : Settings) : ListingOptions where
  verbose := settings.verbose

end Settings

end Bytecode.CommandLine
