import TaskScheduler.Json.Text

/-!
# Faults of JSON texts

What is wrong with a text that cannot be read: the first fault that a reader meets from left to
right, with its line and its column.  Lines are counted from one; the column is the number of bytes
before the place in its line.  Some faults lie at the character that is not wanted, which counts as
part of the column, and some after what has been read.

A value may be kept or skipped.  A skipped value is read with less care: its surrogate escapes may
stand alone, its numbers may be of any size, and it may be nested to any depth.
-/

namespace TaskScheduler.Json

/-- What is wrong with a text, and where. -/
structure Fault where
  /-- What is wrong. -/
  text : String
  /-- The line. -/
  line : Nat
  /-- The column. -/
  column : Nat
  deriving DecidableEq, Repr

/-- A number in decimal digits. -/
def decimalText (n : Nat) : String := String.ofList (Nat.toDigits 10 n)

/-- What is said of a fault. -/
def Fault.message (f : Fault) : String :=
  f.text ++ " at line " ++ decimalText f.line ++ " column " ++ decimalText f.column

/-- A place in a text. -/
structure Cursor where
  /-- The line. -/
  line : Nat := 1
  /-- The number of bytes before the place in its line. -/
  column : Nat := 0
  /-- The text from the place on. -/
  rest : List Char
  deriving DecidableEq, Repr

namespace Cursor

/-- The place after the next character. -/
def skip (c : Cursor) : Cursor :=
  match c.rest with
  | [] => c
  | '\n' :: rest => ⟨c.line + 1, 0, rest⟩
  | x :: rest => ⟨c.line, c.column + x.utf8Size, rest⟩

/-- The place after several characters. -/
def skipMany : Nat → Cursor → Cursor
  | 0, c => c
  | n + 1, c => skipMany n c.skip

/-- The place after all the next characters that pass a test. -/
def skipWhile (p : Char → Bool) (c : Cursor) : Cursor :=
  skipMany (c.rest.takeWhile p).length c

/-- A fault after what has been read. -/
def here (c : Cursor) (text : String) : Fault := ⟨text, c.line, c.column⟩

/-- A fault at the next character. -/
def ahead (c : Cursor) (text : String) : Fault :=
  match c.rest with
  | [] => c.here text
  | '\n' :: _ => ⟨text, c.line + 1, 0⟩
  | _ => ⟨text, c.line, c.column + 1⟩

end Cursor

/-- Reading that gives the place after what was read, or a fault. -/
abbrev Scan (α : Type) := StateT Cursor (Except Fault) α

namespace Scan

/-- The next character. -/
def peek : Scan (Option Char) := return (← get).rest.head?

/-- Pass over the next character. -/
def skip : Scan Unit := modify Cursor.skip

/-- The next character, passed over. -/
def next : Scan (Option Char) := do
  let c ← peek
  skip
  return c

/-- Stop with a fault after what has been read. -/
def failHere {α : Type} (text : String) : Scan α := do throw ((← get).here text)

/-- Stop with a fault at the next character. -/
def failAhead {α : Type} (text : String) : Scan α := do throw ((← get).ahead text)

/-- The next character that is not blank. -/
def peekPart : Scan (Option Char) := do
  modify (Cursor.skipWhile isBlank)
  peek

/-! ### Words and numbers -/

/-- Pass over the rest of a word. -/
def word : List Char → Scan Unit
  | [] => pure ()
  | c :: cs => do
    match ← next with
    | none => failHere "EOF while parsing a value"
    | some x => if x = c then word cs else failHere "expected ident"

/-- Pass over digits. -/
def digits : Scan Unit := modify (Cursor.skipWhile Char.isDigit)

/-- What is wrong with a number that ends too early: a kept one says where the text ends. -/
def numberEnd (kept : Bool) (c : Option Char) : String :=
  if kept && c.isNone then "EOF while parsing a value" else "invalid number"

/-- Pass over an exponent, if there is one. -/
def exponent (kept : Bool) : Scan Unit := do
  match ← peek with
  | some c =>
    if c = 'e' || c = 'E' then
      skip
      match ← peek with
      | some '+' => skip
      | some '-' => skip
      | _ => pure ()
      let d ← next
      if d.any Char.isDigit then digits else failHere (numberEnd kept d)
  | none => pure ()

/-- Pass over a number after its sign. -/
def number (kept : Bool) : Scan Unit := do
  match ← next with
  | some '0' => if (← peek).any Char.isDigit then failAhead "invalid number"
  | some c => if c.isDigit then digits else failHere "invalid number"
  | none => failHere (numberEnd kept none)
  match ← peek with
  | some '.' =>
    skip
    let d ← peek
    if d.any Char.isDigit then digits else failAhead (numberEnd kept d)
  | _ => pure ()
  exponent kept

/-- The characters that a scan passes over. -/
def passed (s : Scan Unit) : Scan (List Char) := do
  let before ← get
  s
  let after ← get
  return before.rest.take (before.rest.length - after.rest.length)

/-- Pass over a number and give its value.  A number that is too large is a fault. -/
def numberValue : Scan Json := do
  let text ← passed do
    if (← peek) = some '-' then skip
    number true
  match parse? (String.ofList text) with
  | some v => return v
  | none => failHere "number out of range"

/-! ### Strings -/

/-- Pass over four hexadecimal digits and give their number. -/
def unit : Scan Nat := do
  match (← get).rest with
  | a :: b :: c :: d :: _ =>
    modify (Cursor.skipMany 4)
    match unitOf? a b c d with
    | some u => return u
    | none => failHere "invalid escape"
  | _ =>
    modify fun c => c.skipMany c.rest.length
    failHere "EOF while parsing a string"

/-- Pass over the second half of a pair of surrogate escapes. -/
def lowSurrogate : Scan Unit := do
  for expected in ['\\', 'u'] do
    match ← peek with
    | none => failHere "EOF while parsing a string"
    | some c =>
      skip
      if c ≠ expected then failHere "unexpected end of hex escape"
  let u ← unit
  if u < 0xDC00 || 0xDFFF < u then failHere "lone leading surrogate in hex escape"

/-- Pass over an escape after its backslash. -/
def escape (kept : Bool) : Scan Unit := do
  match ← next with
  | none => failHere "EOF while parsing a string"
  | some 'u' =>
    let u ← unit
    if kept then
      if 0xDC00 ≤ u && u ≤ 0xDFFF then failHere "lone leading surrogate in hex escape"
      else if 0xD800 ≤ u && u ≤ 0xDBFF then lowSurrogate
  | some c => if (ofLetter? c).isNone then failHere "invalid escape"

/-- Pass over a string after its opening quote. -/
def string (kept : Bool) : Nat → Scan Unit
  | 0 => pure ()
  | n + 1 => do
    match ← peek with
    | none => failHere "EOF while parsing a string"
    | some '"' => skip
    | some '\\' => do
      skip
      escape kept
      string kept n
    | some c =>
      if c.toNat < 0x20 then
        if kept then skip
        failHere "control character (\\u0000-\\u001F) found while parsing a string"
      else
        skip
        string kept n

/-! ### Values -/

mutual

/-- Pass over a value.  The first argument bounds the steps, the second the depth. -/
def value (kept : Bool) : Nat → Nat → Scan Unit
  | 0, _ => pure ()
  | n + 1, depth => do
    match ← peekPart with
    | none => failAhead "EOF while parsing a value"
    | some 'n' => skip; word ['u', 'l', 'l']
    | some 't' => skip; word ['r', 'u', 'e']
    | some 'f' => skip; word ['a', 'l', 's', 'e']
    | some '"' => skip; string kept (n + 1)
    | some '[' =>
      if kept && depth ≤ 1 then failAhead "recursion limit exceeded"
      skip
      items kept n (depth - 1) true
    | some '\x7b' =>
      if kept && depth ≤ 1 then failAhead "recursion limit exceeded"
      skip
      members kept n (depth - 1) true
    | some c =>
      if c = '-' || c.isDigit then
        if kept then let _ ← numberValue
        else
          if c = '-' then skip
          number false
      else failAhead "expected value"

/-- Pass over the items of an array and its end. -/
def items (kept : Bool) : Nat → Nat → Bool → Scan Unit
  | 0, _, _ => pure ()
  | n + 1, depth, isFirst => do
    match ← peekPart with
    | none => failAhead "EOF while parsing a list"
    | some ']' => skip
    | some c =>
      if isFirst then pure ()
      else if c = ',' then
        skip
        match ← peekPart with
        | none => failAhead "EOF while parsing a value"
        | some ']' => failAhead (if kept then "trailing comma" else "expected value")
        | some _ => pure ()
      else failAhead "expected `,` or `]`"
      value kept n depth
      items kept n depth false

/-- Pass over the members of an object and its end. -/
def members (kept : Bool) : Nat → Nat → Bool → Scan Unit
  | 0, _, _ => pure ()
  | n + 1, depth, isFirst => do
    match ← peekPart with
    | none => failAhead "EOF while parsing an object"
    | some '\x7d' => skip
    | some c =>
      if isFirst then
        if c ≠ '"' then failAhead "key must be a string"
      else if c = ',' then
        skip
        match ← peekPart with
        | none =>
          failAhead (if kept then "EOF while parsing a value" else "EOF while parsing an object")
        | some '"' => pure ()
        | some '\x7d' => failAhead (if kept then "trailing comma" else "key must be a string")
        | some _ => failAhead "key must be a string"
      else failAhead "expected `,` or `\x7d`"
      skip
      string kept (n + 1)
      match ← peekPart with
      | some ':' => skip
      | some _ => failAhead "expected `:`"
      | none => failAhead "EOF while parsing an object"
      value kept n depth
      members kept n depth false

end

end Scan

/-- The first fault of a text, if a scan meets one or something follows what it reads. -/
def faultOf (s : Scan Unit) (text : List Char) : Option Fault :=
  let whole : Scan Unit := do
    s
    if (← Scan.peekPart).isSome then Scan.failAhead "trailing characters"
  match whole.run { rest := text } with
  | .ok _ => none
  | .error f => some f

end TaskScheduler.Json
