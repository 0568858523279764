import TaskScheduler.Json.Value
import TaskScheduler.Number.Shortest

/-!
# Written forms of JSON values

A `Json.Form` is a JSON text taken apart: numbers are still digits, strings are still a list of
characters and escapes, and the members of an object still stand in the order in which they were
written, repetitions included.  `Form.value?` gives the value of a form, and refuses one that is
nested too deeply, whose numbers are out of range or whose strings hold half a surrogate pair.
`Json.form` goes the other way and picks the one form in which this library writes a value.
-/

namespace TaskScheduler

namespace Json

/-! ### Strings -/

/-- A piece of a written string. -/
inductive Piece where
  /-- A character that stands for itself. -/
  | plain (c : Char)
  /-- A backslash and one letter, standing for the given character. -/
  | escape (c : Char)
  /-- A backslash, the letter `u` and four hexadecimal digits. -/
  | unit (n : Nat)
  deriving DecidableEq, Repr

/-- The characters with an escape of one letter, each with its letter. -/
def escapeLetters : List (Char × Char) :=
  [('"', '"'), ('\\', '\\'), ('/', '/'), ('\x08', 'b'), ('\t', 't'), ('\n', 'n'), ('\x0c', 'f'),
    ('\r', 'r')]

/-- The letter of the escape of a character. -/
def letterOf? (c : Char) : Option Char := (escapeLetters.find? fun e => e.1 = c).map Prod.snd

/-- The character whose escape has the given letter. -/
def ofLetter? (l : Char) : Option Char := (escapeLetters.find? fun e => e.2 = l).map Prod.fst

/-- The piece that stands for a character: control characters, the quote and the backslash are
escaped, with one letter where there is one, and all other characters stand for themselves. -/
def Piece.ofChar (c : Char) : Piece :=
  if c = '"' ∨ c = '\\' then .escape c
  else if c.toNat < 0x20 then (if (letterOf? c).isSome then .escape c else .unit c.toNat)
  else .plain c

/-- Whether a unit is the first half of a surrogate pair. -/
def isHighSurrogate (n : Nat) : Bool := 0xD800 ≤ n && n ≤ 0xDBFF

/-- Whether a unit is the second half of a surrogate pair. -/
def isLowSurrogate (n : Nat) : Bool := 0xDC00 ≤ n && n ≤ 0xDFFF

/-- The characters of a written string.  Half a surrogate pair has none. -/
def charsOf? : List Piece → Option (List Char)
  | [] => some []
  | .plain c :: rest => (charsOf? rest).map (c :: ·)
  | .escape c :: rest => (charsOf? rest).map (c :: ·)
  | .unit n :: .unit m :: rest =>
    if isHighSurrogate n then
      if isLowSurrogate m then
        (charsOf? rest).map (Char.ofNat (0x10000 + (n - 0xD800) * 0x400 + (m - 0xDC00)) :: ·)
      else none
    else if isLowSurrogate n then none
    else (charsOf? (.unit m :: rest)).map (Char.ofNat n :: ·)
  | .unit n :: rest =>
    if isHighSurrogate n || isLowSurrogate n then none
    else (charsOf? rest).map (Char.ofNat n :: ·)

/-- The text of a written string. -/
def textOf? (pieces : List Piece) : Option String := (charsOf? pieces).map String.ofList

/-- The written form of a text. -/
def piecesOf (s : String) : List Piece := s.toList.map Piece.ofChar

/-! ### Numbers -/

/-- A written number: sign, digits before and after the point, and exponent. -/
structure NumberForm where
  /-- Whether there is a minus sign in front. -/
  negative : Bool
  /-- The digits before the point. -/
  whole : List Char
  /-- The digits after the point, none when there is no point. -/
  fraction : List Char
  /-- The exponent: whether it is negative, and its digits. -/
  exponent : Option (Bool × List Char)
  deriving DecidableEq, Repr

/-- The value of a decimal digit. -/
def digitValue (c : Char) : Nat := c.toNat - '0'.toNat

/-- The number with the given decimal digits. -/
def digitsValue (ds : List Char) : Nat := ds.foldl (fun n c => 10 * n + digitValue c) 0

/-- Read digits into a significand while it fits 64 bits; what remains are the digits from the
first on that does not. -/
def accumulate (significand : Nat) : List Char → Nat × List Char
  | [] => (significand, [])
  | c :: rest =>
    let n := significand * 10 + digitValue c
    if n < 2 ^ 64 then accumulate n rest else (significand, c :: rest)

/-- Divide magnitude bits by a power of ten, at most `10 ^ 308` at a time. -/
def dividePow10 (f k : Nat) : Nat :=
  if k ≤ 308 then Binary64.div f (Binary64.pow10 k)
  else if f = 0 then 0
  else dividePow10 (Binary64.div f (Binary64.pow10 308)) (k - 308)
termination_by k

/-- The magnitude bits of `significand * 10 ^ exponent`, rounded after the significand and again
after each scaling.  A number that is too large has none. -/
def scale? (significand : Nat) (exponent : Int) : Option Nat :=
  let f := Binary64.ofNat significand
  if exponent < 0 then some (dividePow10 f (-exponent).toNat)
  else if 308 < exponent then (if f = 0 then some 0 else none)
  else
    let r := Binary64.mul f (Binary64.pow10 exponent.toNat)
    if r = Binary64.infinity then none else some r

/-- The value of a written number.  Digits of the significand beyond 64 bits count as zeros. -/
def NumberForm.value? (n : NumberForm) : Option Json :=
  let (whole, dropped) := accumulate 0 n.whole
  if n.fraction = [] ∧ n.exponent = none ∧ dropped = [] then
    if n.negative then
      if whole = 0 ∨ 2 ^ 63 < whole then some (float (.ofMagnitude true (Binary64.ofNat whole)))
      else (Integer.ofInt? (-whole)).map int
    else (Integer.ofInt? whole).map int
  else
    let (significand, unread) := accumulate whole n.fraction
    let shift : Int := (dropped.length : Int) - ((n.fraction.length - unread.length : Nat) : Int)
    let (minus, e) := match n.exponent with
      | none => (false, 0)
      | some (minus, ds) => (minus, digitsValue ds)
    if 2 ^ 31 ≤ e then
      if significand ≠ 0 ∧ !minus then none else some (float (.ofMagnitude n.negative 0))
    else
      (scale? significand (if minus then shift - e else shift + e)).map fun f =>
        float (.ofMagnitude n.negative f)

/-- The written form of an integer. -/
def NumberForm.ofInt (i : Int) : NumberForm :=
  ⟨decide (i < 0), Decimal.digitChars i.natAbs, [], none⟩

/-- The written form of a finite floating-point number: the fewest digits that read back, positional
from `10 ^ -5` to below `10 ^ 16` and then always with a point, scientific elsewhere. -/
def NumberForm.ofFloat (x : Binary64) : NumberForm :=
  if x.magnitude = 0 then ⟨x.negative, ['0'], ['0'], none⟩
  else
    let d := Decimal.shortest x.magnitude
    let ds := Decimal.digitChars d.digits
    let e : Int := d.exponent + (ds.length : Int) - 1
    if -5 ≤ e ∧ e < 16 then
      let (whole, part) := d.positional
      ⟨x.negative, whole, if part = [] then ['0'] else part, none⟩
    else
      ⟨x.negative, ds.take 1, ds.drop 1, some (decide (e < 0), Decimal.digitChars e.natAbs)⟩

/-! ### Forms -/

/-- The written form of a value. -/
inductive Form where
  /-- The word `null`. -/
  | null
  /-- The word `true` or `false`. -/
  | bool (b : Bool)
  /-- A number. -/
  | num (n : NumberForm)
  /-- A string. -/
  | str (pieces : List Piece)
  /-- Values in brackets. -/
  | arr (items : List Form)
  /-- Members in braces, in the order in which they are written. -/
  | obj (members : List (List Piece × Form))
  deriving Inhabited, Repr

mutual

/-- The value of a form with at most `depth` arrays and objects inside one another. -/
def Form.value? (depth : Nat) : Form → Option Json
  | .null => some .null
  | .bool b => some (.bool b)
  | .num n => n.value?
  | .str pieces => (textOf? pieces).map .str
  | .arr items =>
    if depth = 0 then none else (Form.values? (depth - 1) items).map .arr
  | .obj members =>
    if depth = 0 then none else (Form.memberValues? (depth - 1) members).map ofMembers

/-- The values of a list of forms. -/
def Form.values? (depth : Nat) : List Form → Option (List Json)
  | [] => some []
  | f :: rest =>
    match Form.value? depth f, Form.values? depth rest with
    | some v, some vs => some (v :: vs)
    | _, _ => none

/-- The keys and values of written members. -/
def Form.memberValues? (depth : Nat) : List (List Piece × Form) → Option (List (String × Json))
  | [] => some []
  | m :: rest =>
    match textOf? m.1, Form.value? depth m.2, Form.memberValues? depth rest with
    | some k, some v, some vs => some ((k, v) :: vs)
    | _, _, _ => none

end

mutual

/-- The form in which a value is written. -/
def form : Json → Form
  | .null => .null
  | .bool b => .bool b
  | .int i => .num (.ofInt i.val)
  | .float x => .num (.ofFloat x)
  | .str s => .str (piecesOf s)
  | .arr items => .arr (forms items)
  | .obj members => .obj (memberForms members)

/-- The forms of a list of values. -/
def forms : List Json → List Form
  | [] => []
  | v :: rest => form v :: forms rest

/-- The forms of a list of members. -/
def memberForms : List (String × Json) → List (List Piece × Form)
  | [] => []
  | m :: rest => (piecesOf m.1, form m.2) :: memberForms rest

end

/-- How many arrays and objects a text may have inside one another. -/
def maxDepth : Nat := 127

end Json

end TaskScheduler
