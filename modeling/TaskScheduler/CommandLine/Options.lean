import TaskScheduler.Data.FiniteMap
import TaskScheduler.Number.Literal

/-!
# Options of a command line

A command line is read one argument after the other: options with a long name and perhaps a short
one, operands, and the name of a subcommand, at which the reading stops.  The value of an option
stands in the same argument or in the next one; a value in the next argument is checked only when
something else follows, so an unknown option after it is reported before a bad value.
-/

namespace TaskScheduler.CommandLine

/-- Why a command line was refused. -/
inductive UsageError where
  /-- Help was asked for. -/
  | displayHelp
  /-- The version was asked for. -/
  | displayVersion
  /-- There is no argument at all. -/
  | helpForNothing
  /-- There is no subcommand. -/
  | missingSubcommand
  /-- A subcommand is unknown. -/
  | invalidSubcommand
  /-- An option or an operand is unknown. -/
  | unknownArgument
  /-- A required operand is missing. -/
  | missingRequiredArgument
  /-- An option has no value. -/
  | invalidValue
  /-- A value cannot be read. -/
  | valueValidation
  /-- An option is repeated. -/
  | argumentConflict
  /-- A flag has a value. -/
  | tooManyValues
  /-- A value is not valid UTF-8. -/
  | invalidUtf8
  deriving DecidableEq, Repr

/-- The exit code of the program after an error. -/
def UsageError.exitCode : UsageError → Nat
  | .displayHelp => 0
  | .displayVersion => 0
  | _ => 2

/-- What the value of an option is. -/
inductive ValueKind where
  /-- Any text. -/
  | text
  /-- An unsigned word. -/
  | word
  /-- A signed word. -/
  | integer
  deriving DecidableEq, Repr

/-- Whether a text is a value of a kind. -/
def ValueKind.accepts : ValueKind → String → Bool
  | .text, _ => true
  | .word, s => (wordLiteral? s).isSome
  | .integer, s => (intLiteral? s).isSome

/-- What an option does. -/
inductive OptionKind where
  /-- It asks for help. -/
  | help
  /-- It asks for the version. -/
  | version
  /-- It is given or not. -/
  | flag
  /-- It takes a value.  A value that looks like a negative number may stand in the next argument
  only if that is allowed. -/
  | value (kind : ValueKind) (negative : Bool)
  deriving DecidableEq, Repr

/-- An option. -/
structure OptionSpec where
  /-- The long name. -/
  name : String
  /-- The short name. -/
  short : Option Char
  /-- What it does. -/
  kind : OptionKind
  deriving DecidableEq, Repr

/-- What a command line may hold at one level. -/
structure Level where
  /-- The options. -/
  options : List OptionSpec
  /-- The names of the operands, all of them required. -/
  operands : List String
  /-- The names of the subcommands. -/
  subcommands : List String
  deriving DecidableEq, Repr

/-- An argument whose value has not been checked. -/
structure Pending where
  /-- The name of the option or the operand. -/
  name : String
  /-- What the value is. -/
  kind : ValueKind
  /-- Whether the next argument may be a negative number. -/
  negative : Bool
  /-- The value, once it is there. -/
  value : Option String
  deriving DecidableEq, Repr

/-- How far a command line has been read at one level. -/
structure Reading where
  /-- The values found, by name. -/
  found : FiniteMap String String := .empty
  /-- The argument whose value has not been checked. -/
  pending : Option Pending := none
  /-- The operands that are still missing. -/
  operands : List String
  /-- Whether all that follows is operands. -/
  trailing : Bool := false

namespace Reading

/-- Store a value.  A name has one value. -/
def store (r : Reading) (name : String) (kind : ValueKind) (value : String) :
    Except UsageError Reading :=
  if r.found.contains name then .error .argumentConflict
  else if kind.accepts value then .ok { r with found := r.found.insert name value }
  else .error .valueValidation

/-- Check the value that has not been checked. -/
def settle (r : Reading) : Except UsageError Reading :=
  match r.pending with
  | none => .ok r
  | some p =>
    match p.value with
    | none => .error .invalidValue
    | some v => { r with pending := none }.store p.name p.kind v

/-- Whether the next argument is the value of an option. -/
def isWaiting (r : Reading) : Bool := r.pending.any fun p => p.value.isNone

/-- Take an option with the value that stands in the same argument, if there is one. -/
def takeOption (r : Reading) (o : OptionSpec) (attached : Option String) :
    Except UsageError Reading :=
  match o.kind, attached with
  | .value kind _, some v => do (← r.settle).store o.name kind v
  | .value kind negative, none => do
    return { ← r.settle with pending := some ⟨o.name, kind, negative, none⟩ }
  | _, some _ => .error .tooManyValues
  | .flag, none => do (← r.settle).store o.name .text "true"
  | .help, none => do
    let _ ← r.settle
    .error .displayHelp
  | .version, none => do
    let _ ← r.settle
    .error .displayVersion

/-- Take an operand. -/
def takeOperand (level : Level) (r : Reading) (value : String) : Except UsageError Reading :=
  match r.operands with
  | name :: rest => do
    return { ← r.settle with pending := some ⟨name, .text, false, some value⟩, operands := rest }
  | [] =>
    if level.subcommands.isEmpty then .error .unknownArgument
    else if r.trailing && level.subcommands.contains value then .error .unknownArgument
    else .error .invalidSubcommand

end Reading

/-! ### Forms of arguments -/

/-- Split a text at its first equals sign. -/
def splitEquals : List Char → List Char × Option (List Char)
  | [] => ([], none)
  | '=' :: rest => ([], some rest)
  | c :: rest =>
    let (name, value) := splitEquals rest
    (c :: name, value)

/-- Whether characters are digits with at most one point and after it at most one exponent mark,
neither of the two in front and the mark not at the end. -/
def isNumberTail (point mark : Bool) : List Char → Bool
  | [] => true
  | '.' :: rest => !point && !mark && isNumberTail true mark rest
  | 'e' :: rest => !mark && rest ≠ [] && isNumberTail point true rest
  | c :: rest => c.isDigit && isNumberTail point mark rest

/-- Whether the characters after a minus sign make a negative number. -/
def isNumber : List Char → Bool
  | [] => true
  | c :: rest => c.isDigit && isNumberTail false false rest

/-- The option with a long name. -/
def Level.long? (level : Level) (name : String) : Option OptionSpec :=
  level.options.find? fun o => o.name = name

/-- The option with a short name. -/
def Level.short? (level : Level) (c : Char) : Option OptionSpec :=
  level.options.find? fun o => o.short = some c

/-- The value that is attached to a short option. -/
def attachedValue : List Char → Option String
  | [] => none
  | '=' :: rest => some (String.ofList rest)
  | cs => some (String.ofList cs)

/-- Take the short options of one argument. -/
def takeShort (level : Level) (r : Reading) : List Char → Except UsageError Reading
  | [] => .ok r
  | c :: rest =>
    match level.short? c with
    | none => .error .unknownArgument
    | some o =>
      match o.kind with
      | .value _ _ => r.takeOption o (attachedValue rest)
      | _ => do takeShort level (← r.takeOption o none) rest

/-- Take an argument that is not a subcommand and not among the trailing operands. -/
def takeArgument (level : Level) (r : Reading) (arg : String) : Except UsageError Reading :=
  let plain : Except UsageError Reading :=
    match r.pending with
    | some p =>
      if p.value.isNone then .ok { r with pending := some { p with value := some arg } }
      else r.takeOperand level arg
    | none => r.takeOperand level arg
  match arg.toList with
  | ['-', '-'] => .ok { r with trailing := true }
  | '-' :: '-' :: cs =>
    let (name, value) := splitEquals cs
    match level.long? (String.ofList name) with
    | some o => r.takeOption o (value.map String.ofList)
    | none => .error .unknownArgument
  | '-' :: c :: cs =>
    if r.isWaiting && r.pending.any Pending.negative && isNumber (c :: cs) then plain
    else takeShort level r (c :: cs)
  | _ => plain

/-- Read the arguments of a level.  Gives the values found, and the subcommand with the arguments
after it. -/
def readLevel (level : Level) :
    Reading → List String → Except UsageError (Reading × Option (String × List String))
  | r, [] => .ok (r, none)
  | r, arg :: rest =>
    if r.trailing then
      match r.takeOperand level arg with
      | .ok r => readLevel level r rest
      | .error e => .error e
    else if !r.isWaiting && level.subcommands.contains arg then .ok (r, some (arg, rest))
    else
      match takeArgument level r arg with
      | .ok r => readLevel level r rest
      | .error e => .error e

end TaskScheduler.CommandLine
