import TaskScheduler.Number.Binary64

/-!
# Shortest decimal digits

`Decimal.shortest` gives the fewest decimal digits that read back as a given positive floating-point
number, and among those the digits nearest to it.  The search tries one digit, two digits, and so on
up to seventeen, and tests the two neighbours of the number on each decimal grid exactly.
-/

namespace TaskScheduler

/-- The decimal number `digits * 10 ^ exponent`. -/
structure Decimal where
  /-- The significant digits, read as a whole number. -/
  digits : Nat
  /-- The power of ten of the last digit. -/
  exponent : Int
  deriving DecidableEq, Repr

namespace Decimal

/-- The decimal digits of a number, most significant first. -/
def digitChars (n : Nat) : List Char := Nat.toDigits 10 n

/-- The numbers that round to `m * 2 ^ q`, in units of `2 ^ (q - 2)`: the lower end, the number
itself and the upper end. -/
structure Interval where
  /-- The lower end. -/
  low : Nat
  /-- The number. -/
  mid : Nat
  /-- The upper end. -/
  high : Nat
  /-- Whether the ends round to the number too. -/
  closed : Bool

/-- The rounding interval of magnitude bits, with the binary exponent of its unit.  Below a power of
two the neighbour is half as far away. -/
def interval (magnitude : Nat) : Interval × Int :=
  let (m, q) := Binary64.decode magnitude
  let low := if m = 2 ^ 52 ∧ -1074 < q then 4 * m - 1 else 4 * m - 2
  (⟨low, 4 * m, 4 * m + 2, m % 2 = 0⟩, q - 2)

/-- The greatest `e` with `10 ^ e ≤ num / den`, for positive `num` and `den`. -/
def log10Ratio (num den : Nat) : Int :=
  if den ≤ num then ((digitChars (num / den)).length : Int) - 1
  else -((digitChars ((den + num - 1) / num - 1)).length : Int)

/-- Whether `d * 10 ^ k` lies in the interval, whose unit is `2 ^ q`. -/
def Interval.holds (i : Interval) (q : Int) (d : Nat) (k : Int) : Bool :=
  let (t, td) := if 0 ≤ k then (d * 10 ^ k.toNat, 1) else (d, 10 ^ (-k).toNat)
  let (u, ud) := Binary64.fraction 1 q
  let x := t * ud
  let unit := u * td
  if i.closed then i.low * unit ≤ x && x ≤ i.high * unit
  else i.low * unit < x && x < i.high * unit

/-- The neighbour of the number on the grid of multiples of `10 ^ k` that lies in the interval and
is nearest, if there is one. -/
def Interval.onGrid? (i : Interval) (q : Int) (k : Int) : Option Nat :=
  let (u, ud) := Binary64.fraction i.mid q
  let (num, den) := if 0 ≤ k then (u, ud * 10 ^ k.toNat) else (u * 10 ^ (-k).toNat, ud)
  let below := num / den
  let nearer := Binary64.roundDiv num den
  let farther := if nearer = below then below + 1 else below
  if i.holds q nearer k then some nearer
  else if i.holds q farther k then some farther
  else none

/-- The first of the grids `10 ^ k`, `10 ^ (k - 1)`, ... that has a neighbour in the interval. -/
def search (i : Interval) (q : Int) : Nat → Int → Decimal
  | 0, k => ⟨i.mid, k⟩
  | n + 1, k =>
    match i.onGrid? q k with
    | some d => ⟨d, k⟩
    | none => search i q n (k - 1)

/-- Drop the zeros at the end of the digits. -/
def stripZeros : Nat → Decimal → Decimal
  | 0, d => d
  | n + 1, d =>
    if d.digits ≠ 0 ∧ d.digits % 10 = 0 then stripZeros n ⟨d.digits / 10, d.exponent + 1⟩ else d

/-- The fewest digits that read back as the positive number with the given magnitude bits. -/
def shortest (magnitude : Nat) : Decimal :=
  let (i, q) := interval magnitude
  let (num, den) := Binary64.fraction i.mid q
  stripZeros 20 (search i q 17 (log10Ratio num den))

/-- Digits around a point, without exponent: whole part and fraction. -/
def positional (d : Decimal) : List Char × List Char :=
  let ds := digitChars d.digits
  if 0 ≤ d.exponent then (ds ++ List.replicate d.exponent.toNat '0', [])
  else
    let n := (-d.exponent).toNat
    if n < ds.length then (ds.take (ds.length - n), ds.drop (ds.length - n))
    else (['0'], List.replicate (n - ds.length) '0' ++ ds)

/-- The notation of numbers in metrics: always positional, with a point only before a fraction. -/
def plainChars (d : Decimal) : List Char :=
  let (whole, part) := d.positional
  if part = [] then whole else whole ++ '.' :: part

end Decimal

namespace Binary64

/-- A finite magnitude in the notation of metrics. -/
def plainChars (magnitude : Nat) : List Char :=
  if magnitude = 0 then ['0'] else (Decimal.shortest magnitude).plainChars

end Binary64

end TaskScheduler
