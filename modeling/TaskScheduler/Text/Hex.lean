/-!
# Hexadecimal numbers

Ids are written in lower-case hexadecimal digits without leading zeros; members of the queue are
padded to sixteen digits.  `readHex?` reads both, and takes upper-case digits, a sign, the mark `0x`
and white space around the number as well.  A text ends at its first NUL character, whatever stands
behind it.
-/

namespace TaskScheduler.Hex

/-- The lower-case hexadecimal digits of a number, without leading zeros. -/
def digits (n : Nat) : List Char := Nat.toDigits 16 n

/-- The digits of a number, padded with zeros to sixteen. -/
def padded (n : Nat) : List Char := List.replicate (16 - (digits n).length) '0' ++ digits n

/-- The value of a hexadecimal digit. -/
def digitValue? (c : Char) : Option Nat :=
  if '0' ≤ c ∧ c ≤ '9' then some (c.toNat - 48)
  else if 'a' ≤ c ∧ c ≤ 'f' then some (c.toNat - 87)
  else if 'A' ≤ c ∧ c ≤ 'F' then some (c.toNat - 55)
  else none

/-- Whether a character is a hexadecimal digit. -/
def isDigit (c : Char) : Bool := (digitValue? c).isSome

/-- The number with the given digits. -/
def value (ds : List Char) : Nat := ds.foldl (fun n c => 16 * n + (digitValue? c).getD 0) 0

/-- The white space of ASCII. -/
def isSpace (c : Char) : Bool := c = ' ' || ('\t' ≤ c && c ≤ '\r')

/-- The digits after the mark `0x`, if it is there and a digit follows. -/
def dropMark (cs : List Char) : List Char :=
  match cs with
  | '0' :: x :: d :: rest => if (x = 'x' ∨ x = 'X') ∧ isDigit d then d :: rest else cs
  | _ => cs

/-- The part of a text before its first NUL character. -/
def untilNul (cs : List Char) : List Char := cs.takeWhile (· ≠ '\x00')

/-- The sign and the magnitude of a number in base sixteen with white space around it.  Only the
part of the text that `untilNul` keeps is looked at. -/
def readHex? (cs : List Char) : Option (Bool × Nat) :=
  let cs := (untilNul cs).dropWhile isSpace
  let (negative, cs) : Bool × List Char := match cs with
    | '-' :: rest => (true, rest)
    | '+' :: rest => (false, rest)
    | _ => (false, cs)
  let cs := dropMark cs
  let ds := cs.takeWhile isDigit
  if ds = [] then none
  else if (cs.dropWhile isDigit).all isSpace then some (negative, value ds)
  else none

end TaskScheduler.Hex
