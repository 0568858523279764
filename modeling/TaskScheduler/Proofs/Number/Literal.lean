import TaskScheduler.Number.Literal

/-!
# Decimal numbers read back

What is written in base ten is read back as the number it stands for.
-/

namespace TaskScheduler

namespace Decimal

/-- What the readers make of a decimal digit. -/
theorem digitChar_facts : ∀ d < 10, (Nat.digitChar d).toNat = 48 + d ∧
    (Nat.digitChar d).isDigit = true ∧ Nat.digitChar d ≠ '+' ∧ (Nat.digitChar d = '0' → d = 0) := by
  decide

/-- Only decimal digits are written. -/
theorem exists_of_mem_digits {n : Nat} {c : Char} (h : c ∈ Nat.toDigits 10 n) :
    ∃ d < 10, c = Nat.digitChar d := by
  induction n using Nat.strongRecOn with
  | ind n ih =>
    rw [Nat.toDigits_eq_if (by decide)] at h
    split at h
    next hn => exact ⟨n, hn, List.mem_singleton.1 h⟩
    next hn =>
      rcases List.mem_append.1 h with h | h
      · exact ih (n / 10) (by omega) h
      · exact ⟨n % 10, Nat.mod_lt _ (by decide), List.mem_singleton.1 h⟩

/-- Only zero begins with a zero. -/
theorem eq_zero_of_head? {n : Nat} (h : (Nat.toDigits 10 n).head? = some '0') : n = 0 := by
  induction n using Nat.strongRecOn with
  | ind n ih =>
    rw [Nat.toDigits_eq_if (by decide)] at h
    split at h
    next hn =>
      rw [List.head?_cons, Option.some.injEq] at h
      exact (digitChar_facts n hn).2.2.2 h
    next hn =>
      obtain ⟨c, rest, hcons⟩ : ∃ c rest, Nat.toDigits 10 (n / 10) = c :: rest :=
        List.exists_cons_of_ne_nil Nat.toDigits_ne_nil
      have hhead : (Nat.toDigits 10 (n / 10)).head? = some '0' := by
        rw [hcons] at h ⊢
        exact h
      have := ih (n / 10) (by omega) hhead
      omega

/-- The digits of a number have its value. -/
theorem foldl_digits (n : Nat) :
    (Nat.toDigits 10 n).foldl (fun n c => 10 * n + (c.toNat - 48)) 0 = n := by
  induction n using Nat.strongRecOn with
  | ind n ih =>
    rw [Nat.toDigits_eq_if (by decide)]
    split
    next hn => simp [(digitChar_facts n hn).1]
    next hn =>
      have hlast := (digitChar_facts (n % 10) (Nat.mod_lt _ (by decide))).1
      rw [List.foldl_append, ih (n / 10) (by omega), List.foldl_cons, List.foldl_nil, hlast]
      omega

end Decimal

open Decimal in
/-- `wordLiteral?` reads a word from its `wordText`. -/
theorem wordLiteral?_wordText (n : UInt64) : wordLiteral? (wordText n) = some n := by
  obtain ⟨c, rest, hcons⟩ : ∃ c rest, Nat.toDigits 10 n.toNat = c :: rest :=
    List.exists_cons_of_ne_nil Nat.toDigits_ne_nil
  have hplus : c ≠ '+' := by
    obtain ⟨d, hd, rfl⟩ := exists_of_mem_digits (hcons ▸ List.mem_cons_self : c ∈ _)
    exact (digitChar_facts d hd).2.2.1
  have hall : (Nat.toDigits 10 n.toNat).all Char.isDigit = true := by
    rw [List.all_eq_true]
    intro x hx
    obtain ⟨d, hd, rfl⟩ := exists_of_mem_digits hx
    exact (digitChar_facts d hd).2.1
  have hread : natLiteral? (Nat.toDigits 10 n.toNat) = some n.toNat := by
    unfold natLiteral?
    rw [if_pos ⟨Nat.toDigits_ne_nil, hall⟩]
    exact congrArg some (foldl_digits n.toNat)
  have hlist : (wordText n).toList = Nat.toDigits 10 n.toNat := String.toList_ofList
  unfold wordLiteral?
  rw [hlist]
  split
  next m hsign => exact absurd (List.cons.inj (hcons.symm.trans hsign)).1 hplus
  next =>
    dsimp only
    rw [hread]
    dsimp only
    rw [if_pos n.toNat_lt, UInt64.ofNat_toNat]

end TaskScheduler
