import TaskScheduler.Number.Power

/-!
# Number literals

Whole numbers in settings and options: an optional sign and decimal digits of ASCII, leading zeros
included, within the range of a 64-bit word.  A minus sign is read for signed numbers only.
-/

namespace TaskScheduler

/-- The number with the given decimal digits, if there is a digit and nothing else. -/
def natLiteral? (cs : List Char) : Option Nat :=
  if cs ≠ [] ∧ cs.all Char.isDigit then
    some (cs.foldl (fun n c => 10 * n + (c.toNat - '0'.toNat)) 0)
  else none

/-- The unsigned word of a literal. -/
def wordLiteral? (s : String) : Option UInt64 :=
  let digits := match s.toList with
    | '+' :: rest => rest
    | cs => cs
  match natLiteral? digits with
  | some n => if n < 2 ^ 64 then some (UInt64.ofNat n) else none
  | none => none

/-- The signed word of a literal. -/
def intLiteral? (s : String) : Option Int64 :=
  let (negative, digits) : Bool × List Char := match s.toList with
    | '+' :: rest => (false, rest)
    | '-' :: rest => (true, rest)
    | cs => (false, cs)
  match natLiteral? digits with
  | none => none
  | some n =>
    let i : Int := if negative then -n else n
    if -2 ^ 63 ≤ i ∧ i < 2 ^ 63 then some (Int64.ofInt i) else none

/-- The decimal digits of an unsigned word. -/
def wordText (n : UInt64) : String := String.ofList (Nat.toDigits 10 n.toNat)

end TaskScheduler
