import TaskScheduler.Json.Form

/-!
# JSON texts

Reading and printing of written forms.  The reader follows the strict grammar: four blank
characters, no comments, no text after the value, no raw control character inside a string.  The
printer has a compact style without blanks and a style on several lines with an indent of two.

The readers take a bound on their steps; the length of the text is always enough, because every step
takes at least one character.
-/

namespace TaskScheduler

namespace Json

/-! ### Reading -/

/-- The blank characters between the parts of a text. -/
def isBlank (c : Char) : Bool := c = ' ' || c = '\t' || c = '\n' || c = '\r'

/-- Drop the blanks in front. -/
def skipBlanks (cs : List Char) : List Char := cs.dropWhile isBlank

/-- The value of a hexadecimal digit in either case. -/
def hexValue? (c : Char) : Option Nat :=
  if '0' ≤ c ∧ c ≤ '9' then some (c.toNat - 48)
  else if 'a' ≤ c ∧ c ≤ 'f' then some (c.toNat - 87)
  else if 'A' ≤ c ∧ c ≤ 'F' then some (c.toNat - 55)
  else none

/-- The number written with four hexadecimal digits. -/
def unitOf? (a b c d : Char) : Option Nat :=
  match hexValue? a, hexValue? b, hexValue? c, hexValue? d with
  | some a, some b, some c, some d => some (((a * 16 + b) * 16 + c) * 16 + d)
  | _, _, _, _ => none

/-- Read the pieces of a string up to and including the quote that ends it. -/
def readPieces : Nat → List Char → Option (List Piece × List Char)
  | 0, _ => none
  | _ + 1, [] => none
  | n + 1, c :: rest =>
    if c = '"' then some ([], rest)
    else if c = '\\' then
      match rest with
      | [] => none
      | l :: rest =>
        if l = 'u' then
          match rest with
          | a :: b :: c :: d :: rest =>
            match unitOf? a b c d, readPieces n rest with
            | some u, some (ps, rest) => some (.unit u :: ps, rest)
            | _, _ => none
          | _ => none
        else
          match ofLetter? l, readPieces n rest with
          | some c, some (ps, rest) => some (.escape c :: ps, rest)
          | _, _ => none
    else if c.toNat < 0x20 then none
    else
      match readPieces n rest with
      | some (ps, rest) => some (.plain c :: ps, rest)
      | none => none

/-- Read digits, at least one. -/
def readDigits (cs : List Char) : Option (List Char × List Char) :=
  let ds := cs.takeWhile Char.isDigit
  if ds = [] then none else some (ds, cs.dropWhile Char.isDigit)

/-- Read the digits before the point.  A zero in front stands alone. -/
def readWhole (cs : List Char) : Option (List Char × List Char) :=
  match readDigits cs with
  | some (ds, rest) => if ds.head? = some '0' ∧ ds ≠ ['0'] then none else some (ds, rest)
  | none => none

/-- Read a point and digits, if there is a point. -/
def readFraction (cs : List Char) : Option (List Char × List Char) :=
  match cs with
  | '.' :: rest => readDigits rest
  | _ => some ([], cs)

/-- Read the sign of an exponent: whether it is a minus sign. -/
def readExponentSign (cs : List Char) : Bool × List Char :=
  match cs with
  | '+' :: rest => (false, rest)
  | '-' :: rest => (true, rest)
  | _ => (false, cs)

/-- Read an exponent, if there is one. -/
def readExponent (cs : List Char) : Option (Option (Bool × List Char) × List Char) :=
  match cs with
  | [] => some (none, [])
  | c :: rest =>
    if c = 'e' ∨ c = 'E' then
      let (minus, rest) := readExponentSign rest
      match readDigits rest with
      | some (ds, rest) => some (some (minus, ds), rest)
      | none => none
    else some (none, cs)

/-- Read a number. -/
def readNumber (cs : List Char) : Option (NumberForm × List Char) :=
  let (negative, cs) : Bool × List Char := match cs with
    | '-' :: rest => (true, rest)
    | _ => (false, cs)
  match readWhole cs with
  | none => none
  | some (whole, cs) =>
    match readFraction cs with
    | none => none
    | some (fraction, cs) =>
      match readExponent cs with
      | none => none
      | some (exponent, cs) => some (⟨negative, whole, fraction, exponent⟩, cs)

mutual

/-- Read a value, with the blanks in front of it. -/
def readForm : Nat → List Char → Option (Form × List Char)
  | 0, _ => none
  | n + 1, cs =>
    match skipBlanks cs with
    | 'n' :: 'u' :: 'l' :: 'l' :: rest => some (.null, rest)
    | 't' :: 'r' :: 'u' :: 'e' :: rest => some (.bool true, rest)
    | 'f' :: 'a' :: 'l' :: 's' :: 'e' :: rest => some (.bool false, rest)
    | '"' :: rest =>
      match readPieces n rest with
      | some (ps, rest) => some (.str ps, rest)
      | none => none
    | '[' :: rest =>
      match skipBlanks rest with
      | ']' :: rest => some (.arr [], rest)
      | _ =>
        match readItems n rest with
        | some (items, rest) => some (.arr items, rest)
        | none => none
    | '{' :: rest =>
      match skipBlanks rest with
      | '}' :: rest => some (.obj [], rest)
      | _ =>
        match readMembers n rest with
        | some (members, rest) => some (.obj members, rest)
        | none => none
    | cs =>
      match readNumber cs with
      | some (x, rest) => some (.num x, rest)
      | none => none

/-- Read values separated by commas up to and including the bracket that ends them. -/
def readItems : Nat → List Char → Option (List Form × List Char)
  | 0, _ => none
  | n + 1, cs =>
    match readForm n cs with
    | none => none
    | some (f, rest) =>
      match skipBlanks rest with
      | ']' :: rest => some ([f], rest)
      | ',' :: rest =>
        match readItems n rest with
        | some (fs, rest) => some (f :: fs, rest)
        | none => none
      | _ => none

/-- Read members separated by commas up to and including the brace that ends them. -/
def readMembers : Nat → List Char → Option (List (List Piece × Form) × List Char)
  | 0, _ => none
  | n + 1, cs =>
    match skipBlanks cs with
    | '"' :: rest =>
      match readPieces n rest with
      | none => none
      | some (k, rest) =>
        match skipBlanks rest with
        | ':' :: rest =>
          match readForm n rest with
          | none => none
          | some (f, rest) =>
            match skipBlanks rest with
            | '}' :: rest => some ([(k, f)], rest)
            | ',' :: rest =>
              match readMembers n rest with
              | some (ms, rest) => some ((k, f) :: ms, rest)
              | none => none
            | _ => none
        | _ => none
    | _ => none

end

/-- The written form of a text that holds one value and nothing else. -/
def Form.ofText? (cs : List Char) : Option Form :=
  match readForm (cs.length + 1) cs with
  | some (f, rest) => if skipBlanks rest = [] then some f else none
  | none => none

/-- The value of a text. -/
def parse? (text : String) : Option Json :=
  match Form.ofText? text.toList with
  | some f => f.value? maxDepth
  | none => none

/-! ### Printing -/

/-- A lower-case hexadecimal digit. -/
def hexDigit (n : Nat) : Char := if n < 10 then Char.ofNat (48 + n) else Char.ofNat (87 + n)

/-- A piece of a string in a text. -/
def Piece.render : Piece → List Char
  | .plain c => [c]
  | .escape c => ['\\', (letterOf? c).getD c]
  | .unit n =>
    ['\\', 'u', hexDigit (n / 4096 % 16), hexDigit (n / 256 % 16), hexDigit (n / 16 % 16),
      hexDigit (n % 16)]

/-- A string in a text, with its quotes. -/
def renderPieces (ps : List Piece) : List Char := '"' :: (ps.flatMap Piece.render ++ ['"'])

/-- A number in a text.  An exponent always has its sign. -/
def NumberForm.render (n : NumberForm) : List Char :=
  (if n.negative then ['-'] else []) ++ n.whole ++
    (if n.fraction = [] then [] else '.' :: n.fraction) ++
    match n.exponent with
    | none => []
    | some (minus, ds) => 'e' :: (if minus then '-' else '+') :: ds

mutual

/-- A value in a text without blanks. -/
def Form.render : Form → List Char
  | .null => "null".toList
  | .bool true => "true".toList
  | .bool false => "false".toList
  | .num n => n.render
  | .str ps => renderPieces ps
  | .arr [] => ['[', ']']
  | .arr (f :: rest) => '[' :: (f.render ++ Form.renderItems rest)
  | .obj [] => ['\x7b', '\x7d']
  | .obj (m :: rest) =>
    '\x7b' :: (renderPieces m.1 ++ ':' :: (m.2.render ++ Form.renderMembers rest))

/-- The values after the first and the bracket that ends them. -/
def Form.renderItems : List Form → List Char
  | [] => [']']
  | f :: rest => ',' :: (f.render ++ Form.renderItems rest)

/-- The members after the first and the brace that ends them. -/
def Form.renderMembers : List (List Piece × Form) → List Char
  | [] => ['\x7d']
  | m :: rest => ',' :: (renderPieces m.1 ++ ':' :: (m.2.render ++ Form.renderMembers rest))

end

/-- A new line with an indent of two blanks for each level. -/
def newLine (level : Nat) : List Char := '\n' :: List.replicate (2 * level) ' '

mutual

/-- A value on several lines, one for each item and member.  Empty arrays and objects stay on one
line. -/
def Form.pretty (level : Nat) : Form → List Char
  | .arr (f :: rest) =>
    '[' :: (newLine (level + 1) ++ (f.pretty (level + 1) ++ Form.prettyItems level rest))
  | .obj (m :: rest) =>
    '\x7b' :: (newLine (level + 1) ++ (renderPieces m.1 ++
      ':' :: ' ' :: (m.2.pretty (level + 1) ++ Form.prettyMembers level rest)))
  | .null => "null".toList
  | .bool true => "true".toList
  | .bool false => "false".toList
  | .num n => n.render
  | .str ps => renderPieces ps
  | .arr [] => ['[', ']']
  | .obj [] => ['\x7b', '\x7d']

/-- The items after the first, each on a line of its own, and the bracket that ends them. -/
def Form.prettyItems (level : Nat) : List Form → List Char
  | [] => newLine level ++ [']']
  | f :: rest =>
    ',' :: (newLine (level + 1) ++ (f.pretty (level + 1) ++ Form.prettyItems level rest))

/-- The members after the first, each on a line of its own, and the brace that ends them. -/
def Form.prettyMembers (level : Nat) : List (List Piece × Form) → List Char
  | [] => newLine level ++ ['\x7d']
  | m :: rest =>
    ',' :: (newLine (level + 1) ++ (renderPieces m.1 ++
      ':' :: ' ' :: (m.2.pretty (level + 1) ++ Form.prettyMembers level rest)))

end

/-- The text of a value without blanks. -/
def compact (v : Json) : String := String.ofList v.form.render

end Json

end TaskScheduler
