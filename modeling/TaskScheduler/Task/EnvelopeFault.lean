import TaskScheduler.Json.Fault
import TaskScheduler.Task.Envelope

/-!
# Faults of task envelopes

What is wrong with a text that is no task envelope, in the words that a rejected task is reported
with.  Besides the faults of JSON texts there are values of the wrong kind and members that are
missing or repeated.
-/

namespace TaskScheduler

/-! ### Values as faults show them -/

/-- A lower-case hexadecimal number in braces after a backslash and a letter. -/
def codeEscape (c : Char) : List Char :=
  ['\\', 'u', '\x7b'] ++ Nat.toDigits 16 c.toNat ++ ['\x7d']

/-- A character of a quoted text: quotes, backslashes and control characters are escaped. -/
def quotedChar (c : Char) : List Char :=
  match c with
  | '"' => ['\\', '"']
  | '\\' => ['\\', '\\']
  | '\n' => ['\\', 'n']
  | '\t' => ['\\', 't']
  | '\r' => ['\\', 'r']
  | c =>
    if c.toNat = 0 then ['\\', '0']
    else if c.toNat < 0x20 || (0x7F ≤ c.toNat && c.toNat < 0xA0) then codeEscape c
    else [c]

/-- A text in quotes. -/
def quotedText (s : String) : String :=
  "\"" ++ String.ofList (s.toList.flatMap quotedChar) ++ "\""

/-- A value as a fault shows it. -/
def Json.described (v : Json) : String :=
  match v with
  | .null => "null"
  | .bool b => "boolean `" ++ (if b then "true" else "false") ++ "`"
  | .int _ => "integer `" ++ v.compact ++ "`"
  | .float _ => "floating point `" ++ v.compact ++ "`"
  | .str s => "string " ++ quotedText s
  | .arr _ => "sequence"
  | .obj _ => "map"

namespace Envelope

open Json Scan

/-! ### Members -/

/-- The value of a text that has been passed over. -/
def valueOf (text : List Char) : Json := (parse? (String.ofList text)).getD .null

/-- Stop because the next value is of the wrong kind.  Arrays and objects are not passed over. -/
def failKind {α : Type} (wanted : String) : Scan α := do
  let v ← match ← peekPart with
    | some '[' => pure (Json.arr [])
    | some '\x7b' => pure (Json.obj [])
    | some c =>
      if c = '-' || c.isDigit then numberValue
      else pure (valueOf (← passed (value true (2 * (← get).rest.length + 2) 2)))
    | none => failAhead "EOF while parsing a value"
  failHere ("invalid type: " ++ v.described ++ ", expected " ++ wanted)

/-- Pass over a string. -/
def text : Scan Unit := do
  match ← peekPart with
  | none => failAhead "EOF while parsing a value"
  | some '"' => skip; string true (2 * (← get).rest.length + 2)
  | some _ => failKind "a string"

/-- Pass over a payload. -/
def payload : Scan Unit := do value true (2 * (← get).rest.length + 2) maxDepth

/-- Pass over a timeout. -/
def timeoutWord : Scan Unit := do
  match ← peekPart with
  | none => failAhead "EOF while parsing a value"
  | some 'n' => skip; word ['u', 'l', 'l']
  | some c =>
    if c = '-' || c.isDigit then
      match ← numberValue with
      | .int i =>
        if i.val < 0 then
          failHere ("invalid value: " ++ (Json.int i).described ++ ", expected u64")
      | v => failHere ("invalid type: " ++ v.described ++ ", expected u64")
    else failKind "u64"

/-! ### Objects -/

/-- What envelopes are called in faults. -/
def envelopeName : String := "struct TaskEnvelope"

/-- Stop because of the members of an object, after its end if that comes next. -/
def failObject {α : Type} (text : String) : Scan α := do
  if (← peekPart) = some '\x7d' then skip
  failHere text

/-- Pass over the value of a member, unless the member is repeated. -/
def member (seen : List String) (key : String) : Scan Unit := do
  if seen.contains key then failObject ("duplicate field `" ++ key ++ "`")
  match ← peekPart with
  | some ':' => skip
  | some _ => failAhead "expected `:`"
  | none => failAhead "EOF while parsing an object"
  match key with
  | "type" => text
  | "data" => payload
  | "timeout_ms" => timeoutWord
  | _ => value false (2 * (← get).rest.length + 2) 0

/-- Pass over the members of an object and its end. -/
def objectMembers : Nat → List String → Bool → Scan Unit
  | 0, _, _ => pure ()
  | n + 1, seen, isFirst => do
    match ← peekPart with
    | none => failAhead "EOF while parsing an object"
    | some '\x7d' =>
      if !seen.contains "type" then failObject "missing field `type`"
      if !seen.contains "data" then failObject "missing field `data`"
      skip
    | some c =>
      if isFirst then
        if c ≠ '"' then failAhead "key must be a string"
      else if c = ',' then
        skip
        match ← peekPart with
        | none => failAhead "EOF while parsing a value"
        | some '"' => pure ()
        | some '\x7d' => failAhead "trailing comma"
        | some _ => failAhead "key must be a string"
      else failAhead "expected `,` or `\x7d`"
      let literal ← passed do
        skip
        string true (2 * (← get).rest.length + 2)
      let key := match valueOf literal with
        | .str s => s
        | _ => ""
      let known := ["type", "data", "timeout_ms"].contains key
      member seen key
      objectMembers n (if known then key :: seen else seen) false

/-! ### Arrays -/

/-- Stop because of the items of an array, after its end if that comes next. -/
def failArray {α : Type} (text : String) : Scan α := do
  match ← peekPart with
  | some ']' => skip
  | some ',' => do
    skip
    let _ ← peekPart
  | _ => pure ()
  failHere text

/-- Whether another item follows in an array. -/
def moreItems (isFirst : Bool) : Scan Bool := do
  match ← peekPart with
  | none => failAhead "EOF while parsing a list"
  | some ']' => return false
  | some c =>
    if isFirst then return true
    else if c = ',' then
      skip
      match ← peekPart with
      | none => failAhead "EOF while parsing a value"
      | some ']' => failAhead "trailing comma"
      | some _ => return true
    else failAhead "expected `,` or `]`"

/-- What is said of an array with too few items. -/
def tooShort (n : Nat) : String :=
  "invalid length " ++ decimalText n ++ ", expected " ++ envelopeName ++ " with 3 elements"

/-- Pass over the end of an array. -/
def arrayEnd : Scan Unit := do
  match ← peekPart with
  | some ']' => skip
  | some ',' => do
    skip
    match ← peekPart with
    | some ']' => failAhead "trailing comma"
    | _ => failAhead "trailing characters"
  | some _ => failAhead "trailing characters"
  | none => failAhead "EOF while parsing a list"

/-- Pass over the items of an array and its end. -/
def arrayItems : Scan Unit := do
  if ← moreItems true then text else failArray (tooShort 0)
  if ← moreItems false then payload else failArray (tooShort 1)
  if ← moreItems false then timeoutWord
  arrayEnd

/-! ### Envelopes -/

/-- Pass over an envelope. -/
def scan : Scan Unit := do
  match ← peekPart with
  | none => failAhead "EOF while parsing a value"
  | some '[' => skip; arrayItems
  | some '\x7b' => skip; objectMembers ((← get).rest.length + 1) [] true
  | some _ => failKind envelopeName

/-- What is wrong with a text that is no envelope. -/
def fault? (s : String) : Option Fault := faultOf scan s.toList

/-- What is said of a text that is no envelope. -/
def faultText (s : String) : String := ((fault? s).map Fault.message).getD "not a task envelope"

end Envelope

end TaskScheduler
