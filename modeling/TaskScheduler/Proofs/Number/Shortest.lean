import TaskScheduler.Number.Shortest

/-!
# Shortest digits are significant

The digits of a positive floating-point number do not begin with a zero.  What the search tests is
whether digits lie in the rounding interval of the number, and the interval lies above zero, so no
digits that it finds are zero; the fallback of the search is the number itself, and dropping zeros
at the end leaves the other digits.
-/

namespace TaskScheduler

/-- `decode` makes a positive number of magnitude bits other than zero. -/
theorem Binary64.decode_ne_zero {magnitude : Nat} (h : magnitude ≠ 0) :
    (decode magnitude).1 ≠ 0 := by
  unfold decode
  dsimp only
  split
  next hexponent =>
    dsimp only
    omega
  next =>
    dsimp only
    omega

/-- The `fraction` of a positive number is positive. -/
theorem Binary64.fraction_pos {m : Nat} (h : m ≠ 0) (q : Int) : 0 < (fraction m q).1 := by
  unfold fraction
  split
  · exact Nat.mul_pos (Nat.pos_of_ne_zero h) (Nat.two_pow_pos _)
  · exact Nat.pos_of_ne_zero h

namespace Decimal

/-- The rounding `interval` of a positive number lies above zero. -/
theorem interval_pos {magnitude : Nat} (h : magnitude ≠ 0) :
    0 < (interval magnitude).1.low ∧ 0 < (interval magnitude).1.mid := by
  have hdecode := Binary64.decode_ne_zero h
  unfold interval
  dsimp only
  constructor
  · split
    · omega
    · omega
  · omega

variable {i : Interval}

/-- Zero is in no interval above zero. -/
theorem Interval.holds_zero (hlow : 0 < i.low) (q k : Int) : i.holds q 0 k = false := by
  have hunit := Binary64.fraction_pos Nat.one_ne_zero q
  -- the lower end is positive in every unit, and zero is zero in every unit
  have hlower : ∀ td, 0 < td → ¬ i.low * ((Binary64.fraction 1 q).1 * td) ≤ 0 := fun td htd =>
    Nat.not_le_of_lt (Nat.mul_pos hlow (Nat.mul_pos hunit htd))
  unfold Interval.holds
  rcases Int.lt_or_le k 0 with hk | hk
  · rw [if_neg (Int.not_le.2 hk)]
    have hden := hlower (10 ^ (-k).toNat) (Nat.pow_pos (by decide))
    simp only [Nat.zero_mul, hden, Nat.not_lt_zero, decide_false, Bool.false_and, ite_self]
  · rw [if_pos hk]
    have hone := hlower 1 Nat.one_pos
    simp only [Nat.zero_mul, hone, Nat.not_lt_zero, decide_false, Bool.false_and, ite_self]

/-- What `onGrid?` offers lies in the interval. -/
theorem Interval.holds_of_onGrid? {q k : Int} {d : Nat} (h : i.onGrid? q k = some d) :
    i.holds q d k = true := by
  have htested : ∀ a b : Nat, (if i.holds q a k then some a
      else if i.holds q b k then some b else none) = some d → i.holds q d k = true := by
    intro a b heq
    split at heq
    next ha => exact Option.some.inj heq ▸ ha
    next =>
      split at heq
      next hb => exact Option.some.inj heq ▸ hb
      next => cases heq
  exact htested _ _ h

/-- `search` finds no zero in an interval above zero. -/
theorem search_digits_ne_zero (hlow : 0 < i.low) (hmid : 0 < i.mid) (q : Int) (n : Nat) (k : Int) :
    (search i q n k).digits ≠ 0 := by
  induction n generalizing k with
  | zero => exact Nat.pos_iff_ne_zero.1 hmid
  | succ n ih =>
    unfold search
    split
    next d hgrid =>
      rintro rfl
      have hholds := Interval.holds_of_onGrid? hgrid
      rw [Interval.holds_zero hlow] at hholds
      cases hholds
    next => exact ih (k - 1)

/-- `stripZeros` does not drop all digits of a positive number. -/
theorem stripZeros_digits_ne_zero (n : Nat) {d : Decimal} (h : d.digits ≠ 0) :
    (stripZeros n d).digits ≠ 0 := by
  induction n generalizing d with
  | zero => exact h
  | succ n ih =>
    unfold stripZeros
    split
    next hzero => exact ih (by dsimp only; omega)
    next => exact h

/-- The `shortest` digits of a positive number are not all zero. -/
theorem shortest_digits_ne_zero {magnitude : Nat} (h : magnitude ≠ 0) :
    (shortest magnitude).digits ≠ 0 := by
  obtain ⟨hlow, hmid⟩ := interval_pos h
  exact stripZeros_digits_ne_zero 20 (search_digits_ne_zero hlow hmid _ 17 _)

end Decimal

end TaskScheduler
