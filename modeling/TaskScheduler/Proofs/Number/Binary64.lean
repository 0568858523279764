import TaskScheduler.Number.Binary64

/-!
# Rounding of whole numbers

Rounding keeps a number between the powers of two around it and keeps the order of numbers.  Numbers
of the same length are rounded on the same grid, and a power of two stands between numbers of
different lengths, so the two facts go together.
-/

namespace TaskScheduler.Binary64

/-! ### Quotients -/

/-- `roundDiv` moves a quotient up by one at most. -/
theorem roundDiv_bounds (num den : Nat) :
    num / den ≤ roundDiv num den ∧ roundDiv num den ≤ num / den + 1 := by
  unfold roundDiv
  dsimp only
  split
  · omega
  · split
    · omega
    · omega

/-- `roundDiv` keeps the order of quotients with one denominator. -/
theorem roundDiv_mono {num num' : Nat} (den : Nat) (h : num ≤ num') :
    roundDiv num den ≤ roundDiv num' den := by
  obtain ⟨-, hup⟩ := roundDiv_bounds num den
  obtain ⟨hdown, -⟩ := roundDiv_bounds num' den
  have hquot : num / den ≤ num' / den := Nat.div_le_div_right h
  rcases Nat.lt_or_eq_of_le hquot with hlt | heq
  · omega
  · -- with equal quotients it is the remainders that are compared with half of the denominator
    have hrem : num % den ≤ num' % den := by
      have hnum := Nat.div_add_mod num den
      have hnum' := Nat.div_add_mod num' den
      rw [heq] at hnum
      omega
    unfold roundDiv
    dsimp only
    rw [heq]
    split
    · split
      · omega
      · split
        · omega
        · omega
    · split
      · exact Nat.le_of_eq (by rw [if_neg (by omega), if_pos (by omega)])
      · rw [if_neg (by omega)]
        split
        · omega
        · omega

/-! ### Natural numbers -/

/-- `roundNat` of a number lies within the powers of two around it. -/
theorem roundNat_between {n : Nat} (h : n ≠ 0) :
    2 ^ Nat.log2 n ≤ roundNat n ∧ roundNat n ≤ 2 ^ (Nat.log2 n + 1) := by
  have hlow : 2 ^ Nat.log2 n ≤ n := Nat.log2_self_le h
  have hhigh : n < 2 ^ (Nat.log2 n + 1) := Nat.lt_log2_self
  obtain ⟨s, hs⟩ : ∃ s, s = Nat.log2 n - 52 := ⟨_, rfl⟩
  obtain ⟨l, hl⟩ : ∃ l, Nat.log2 n = l + s := ⟨Nat.log2 n - s, by omega⟩
  have hpos : 0 < 2 ^ s := Nat.two_pow_pos s
  have hround : roundNat n = roundDiv n (2 ^ s) * 2 ^ s := by
    rw [roundNat, hs]
  have hlower : 2 ^ Nat.log2 n = 2 ^ l * 2 ^ s := by rw [hl, Nat.pow_add]
  have hupper : 2 ^ (Nat.log2 n + 1) = 2 ^ (l + 1) * 2 ^ s := by
    rw [hl, Nat.add_right_comm, Nat.pow_add]
  obtain ⟨hle, hge⟩ := roundDiv_bounds n (2 ^ s)
  rw [hround, hlower, hupper]
  rw [hlower] at hlow
  rw [hupper] at hhigh
  have hquot : 2 ^ l ≤ n / 2 ^ s := (Nat.le_div_iff_mul_le hpos).2 hlow
  have hquot' : n / 2 ^ s < 2 ^ (l + 1) := (Nat.div_lt_iff_lt_mul hpos).2 hhigh
  constructor
  · exact Nat.mul_le_mul_right _ (Nat.le_trans hquot hle)
  · exact Nat.mul_le_mul_right _ (Nat.le_trans hge hquot')

/-- `roundNat` takes a number beyond `2 ^ 53` to one beyond `2 ^ 53`, and one of 64 binary digits to
`2 ^ 64` at most. -/
theorem roundNat_bounds {n : Nat} (h : 2 ^ 53 ≤ n) (hn : n < 2 ^ 64) :
    2 ^ 53 ≤ roundNat n ∧ roundNat n ≤ 2 ^ 64 := by
  have hne : n ≠ 0 := by omega
  have hlog : 53 ≤ Nat.log2 n := (Nat.le_log2 hne).2 h
  have hlog' : Nat.log2 n < 64 := (Nat.log2_lt hne).2 hn
  obtain ⟨hlow, hhigh⟩ := roundNat_between hne
  constructor
  · exact Nat.le_trans (Nat.pow_le_pow_right (by decide) hlog) hlow
  · exact Nat.le_trans hhigh (Nat.pow_le_pow_right (by decide) hlog')

/-- `roundNat` keeps the order of natural numbers. -/
theorem roundNat_mono {n m : Nat} (h : n ≤ m) : roundNat n ≤ roundNat m := by
  by_cases hn : n = 0
  · subst hn
    exact Nat.zero_le _
  have hm : m ≠ 0 := by omega
  have hlog : Nat.log2 n ≤ Nat.log2 m := (Nat.le_log2 hm).2 (Nat.le_trans (Nat.log2_self_le hn) h)
  rcases Nat.lt_or_eq_of_le hlog with hlt | heq
  · calc roundNat n ≤ 2 ^ (Nat.log2 n + 1) := (roundNat_between hn).2
      _ ≤ 2 ^ Nat.log2 m := Nat.pow_le_pow_right (by decide) hlt
      _ ≤ roundNat m := (roundNat_between hm).1
  · unfold roundNat
    rw [heq]
    exact Nat.mul_le_mul_right _ (roundDiv_mono _ h)

/-! ### Whole numbers -/

/-- `roundInt` keeps the order of whole numbers. -/
theorem roundInt_mono {i j : Int} (h : i ≤ j) : roundInt i ≤ roundInt j := by
  unfold roundInt
  split
  next hi =>
    split
    next hj =>
      have hmono : roundNat j.natAbs ≤ roundNat i.natAbs := roundNat_mono (by omega)
      omega
    next => omega
  next hi =>
    have hmono : roundNat i.natAbs ≤ roundNat j.natAbs := roundNat_mono (by omega)
    rw [if_neg (by omega)]
    omega

end TaskScheduler.Binary64
