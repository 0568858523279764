import TaskScheduler.Number.Power

/-!
# 64-bit binary floating point in exact arithmetic

A `Binary64` is kept as its 64 bits.  A non-negative number with magnitude bits `b` stands for
`m * 2 ^ q`, where `decode b = (m, q)`; every operation is carried out exactly on such fractions and
then rounded once to the nearest number, a tie going to the even significand.
-/

namespace TaskScheduler

/-- A floating-point number with 53 significant binary digits, given by its bits. -/
structure Binary64 where
  /-- Sign, exponent and fraction. -/
  bits : UInt64
  deriving DecidableEq, Repr

namespace Binary64

/-- The bits of the sign. -/
def signBit : Nat := 2 ^ 63

/-- The magnitude bits of infinity. -/
def infinity : Nat := 0x7FF * 2 ^ 52

/-- Whether the sign is minus. -/
def negative (x : Binary64) : Bool := signBit ≤ x.bits.toNat

/-- The bits without the sign.  They order magnitudes as numbers. -/
def magnitude (x : Binary64) : Nat := x.bits.toNat % signBit

/-- The number with the given sign and magnitude bits. -/
def ofMagnitude (negative : Bool) (magnitude : Nat) : Binary64 :=
  ⟨UInt64.ofNat (if negative then magnitude + signBit else magnitude)⟩

/-- Significand and binary exponent of finite magnitude bits: the number is `m * 2 ^ q`. -/
def decode (magnitude : Nat) : Nat × Int :=
  let e : Nat := magnitude / 2 ^ 52
  let f : Nat := magnitude % 2 ^ 52
  if e = 0 then (f, -1074) else (2 ^ 52 + f, (e : Int) - 1075)

/-- A quotient rounded to the nearest natural number, a tie going to the even one. -/
def roundDiv (num den : Nat) : Nat :=
  let d := num / den
  let r := num % den
  if 2 * r < den then d else if den < 2 * r then d + 1 else d + d % 2

/-- The number `m * 2 ^ q` as a fraction. -/
def fraction (m : Nat) (q : Int) : Nat × Nat :=
  if 0 ≤ q then (m * 2 ^ q.toNat, 1) else (m, 2 ^ (-q).toNat)

/-- The greatest `e` with `2 ^ e ≤ num / den`, for positive `num` and `den`. -/
def log2Ratio (num den : Nat) : Int :=
  let e : Int := (Nat.log2 num : Int) - (Nat.log2 den : Int)
  let (p, d) := fraction 1 e
  if p * den ≤ num * d then e else e - 1

/-- The magnitude bits of a fraction rounded to the nearest number.  A fraction beyond the greatest
finite number gives infinity. -/
def ofRatio (num den : Nat) : Nat :=
  if num = 0 then 0
  else
    let q := max (-1074) (log2Ratio num den - 52)
    let (p, d) := fraction 1 q
    let m := roundDiv (num * d) (den * p)
    min infinity ((q + 1074).toNat * 2 ^ 52 + m)

/-- The magnitude bits of a natural number. -/
def ofNat (n : Nat) : Nat := ofRatio n 1

/-- The sum of two finite magnitudes. -/
def add (a b : Nat) : Nat :=
  let (m, q) := decode a
  let (n, r) := decode b
  let s := min q r
  let (num, den) := fraction (m * 2 ^ (q - s).toNat + n * 2 ^ (r - s).toNat) s
  ofRatio num den

/-- The product of two finite magnitudes. -/
def mul (a b : Nat) : Nat :=
  let (m, q) := decode a
  let (n, r) := decode b
  let (num, den) := fraction (m * n) (q + r)
  ofRatio num den

/-- The quotient of two finite magnitudes, the second positive. -/
def div (a b : Nat) : Nat :=
  let (m, q) := decode a
  let (n, r) := decode b
  let (num, den) := fraction m (q - r)
  ofRatio num (den * n)

/-- The magnitude bits of a power of ten. -/
def pow10 (k : Nat) : Nat := ofNat (10 ^ k)

/-! ### Whole numbers with 53 significant digits -/

/-- The nearest number with at most 53 significant binary digits, a tie going to the even one. -/
def roundNat (n : Nat) : Nat :=
  let s := Nat.log2 n - 52
  roundDiv n (2 ^ s) * 2 ^ s

/-- `roundNat` on the magnitude, with the sign kept. -/
def roundInt (i : Int) : Int :=
  if i < 0 then -(roundNat i.natAbs : Int) else (roundNat i.natAbs : Int)

theorem roundDiv_one (n : Nat) : roundDiv n 1 = n := by
  simp [roundDiv, Nat.mod_one]

/-- Numbers up to `2 ^ 53` are kept as they are. -/
theorem roundNat_eq_self {n : Nat} (h : n ≤ 2 ^ 53) : roundNat n = n := by
  rcases Nat.lt_or_ge n (2 ^ 53) with hlt | hge
  · have hlog : Nat.log2 n - 52 = 0 := by
      by_cases hn : n = 0
      · subst hn
        decide
      · have := (Nat.log2_lt hn).2 hlt
        omega
    simp [roundNat, hlog, roundDiv_one]
  · have : n = 2 ^ 53 := Nat.le_antisymm h hge
    subst this
    decide

theorem roundInt_eq_self {i : Int} (h : i.natAbs ≤ 2 ^ 53) : roundInt i = i := by
  unfold roundInt
  rw [roundNat_eq_self h]
  split <;> omega

end Binary64

end TaskScheduler
