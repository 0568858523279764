import Mathlib.Data.List.TakeWhile
import TaskScheduler.Number.Power
import TaskScheduler.Text.Bytes
import TaskScheduler.Text.Hex

/-!
# Hexadecimal numbers read back

What `digits` and `padded` write is read back by `value` and `readHex?`, and among texts of sixteen
digits the order of the bytes is the order of the numbers.
-/

namespace TaskScheduler

/-! ### ASCII texts as bytes -/

/-- `Bytes.ofString` of ASCII characters gives their codes. -/
theorem Bytes.ofString_ofList {cs : List Char} (h : ∀ c ∈ cs, c.toNat < 128) :
    Bytes.ofString (String.ofList cs) = cs.map fun c => c.toUInt8 := by
  have hbytes : (String.ofList cs).toByteArray = (cs.map fun c => c.toUInt8).toByteArray := by
    rw [String.toByteArray_ofList]
    induction cs with
    | nil => rfl
    | cons c cs ih =>
      have hc : c.utf8Size = 1 := by
        rw [Char.utf8Size_eq_one_iff, UInt32.le_iff_toNat_le]
        exact Nat.le_of_lt_succ (h c List.mem_cons_self)
      rw [List.utf8Encode_cons, List.utf8Encode_singleton, String.utf8EncodeChar_eq_singleton hc,
        ih fun d hd => h d (List.mem_cons_of_mem _ hd), ← List.toByteArray_append]
      rfl
  rw [Bytes.ofString, hbytes, List.data_toByteArray]

/-- The code of an ASCII character is its byte. -/
theorem Bytes.toNat_toUInt8 {c : Char} (h : c.toNat < 128) : c.toUInt8.toNat = c.toNat := by
  change c.toNat % 256 = c.toNat
  exact Nat.mod_eq_of_lt (by omega)

/-- The bytes of ASCII characters, taken as codes, give the characters back. -/
theorem Bytes.map_ofNat_ofString {cs : List Char} (h : ∀ c ∈ cs, c.toNat < 128) :
    (Bytes.ofString (String.ofList cs)).map (fun b => Char.ofNat b.toNat) = cs := by
  rw [Bytes.ofString_ofList h, List.map_map]
  refine (List.map_congr_left fun c hc => ?_).trans (List.map_id cs)
  simp [Bytes.toNat_toUInt8 (h c hc)]

namespace Hex

/-! ### Digits -/

/-- A character that `digits` writes. -/
def IsLower (c : Char) : Prop := ∃ d < 16, c = Nat.digitChar d

/-- What the readers and the order make of a hexadecimal digit. -/
theorem digitChar_facts : ∀ d < 16, digitValue? (Nat.digitChar d) = some d ∧
    isSpace (Nat.digitChar d) = false ∧ Nat.digitChar d ≠ '-' ∧ Nat.digitChar d ≠ '+' ∧
    Nat.digitChar d ≠ 'x' ∧ Nat.digitChar d ≠ 'X' ∧ (Nat.digitChar d).toNat < 128 := by
  decide

/-- Digits are ordered by their codes. -/
theorem digitChar_lt_iff : ∀ a < 16, ∀ b < 16,
    ((Nat.digitChar a).toUInt8 < (Nat.digitChar b).toUInt8 ↔ a < b) := by
  decide

/-- The `digits` of a number below sixteen are one, and those of any other are one more than those
of its sixteenth. -/
theorem digits_eq (n : Nat) : digits n =
    if n < 16 then [Nat.digitChar n] else digits (n / 16) ++ [Nat.digitChar (n % 16)] :=
  Nat.toDigits_eq_if (by decide)

/-- All `digits` of a number are lower-case. -/
theorem isLower_of_mem_digits {n : Nat} {c : Char} (h : c ∈ digits n) : IsLower c := by
  induction n using Nat.strongRecOn with
  | ind n ih =>
    rw [digits_eq] at h
    split at h
    next hn =>
      rw [List.mem_singleton] at h
      exact ⟨n, hn, h⟩
    next hn =>
      rcases List.mem_append.1 h with h | h
      · exact ih (n / 16) (by omega) h
      · exact ⟨n % 16, Nat.mod_lt _ (by decide), List.mem_singleton.1 h⟩

/-- All characters of a `padded` number are digits, and lower-case. -/
theorem isLower_of_mem_padded {n : Nat} {c : Char} (h : c ∈ padded n) : IsLower c := by
  rcases List.mem_append.1 h with h | h
  · exact ⟨0, by decide, (List.mem_replicate.1 h).2⟩
  · exact isLower_of_mem_digits h

/-- The `digits` of no number but zero begin with a zero. -/
theorem eq_zero_of_head? {n : Nat} (h : (digits n).head? = some '0') : n = 0 := by
  have hzero : ∀ d < 16, Nat.digitChar d = '0' → d = 0 := by decide
  induction n using Nat.strongRecOn with
  | ind n ih =>
    rw [digits_eq] at h
    split at h
    next hn =>
      rw [List.head?_cons, Option.some.injEq] at h
      exact hzero n hn h
    next hn =>
      -- The digits in front of the last one are those of the sixteenth, which is not zero.
      obtain ⟨c, rest, hcons⟩ : ∃ c rest, digits (n / 16) = c :: rest :=
        List.exists_cons_of_ne_nil Nat.toDigits_ne_nil
      have hhead : (digits (n / 16)).head? = some '0' := by
        rw [hcons] at h ⊢
        exact h
      have := ih (n / 16) (by omega) hhead
      omega

/-- Digits are ASCII characters. -/
theorem IsLower.toNat_lt {c : Char} (h : IsLower c) : c.toNat < 128 := by
  obtain ⟨d, hd, rfl⟩ := h
  exact (digitChar_facts d hd).2.2.2.2.2.2

/-- Digits are digits to the reader. -/
theorem IsLower.isDigit {c : Char} (h : IsLower c) : isDigit c = true := by
  obtain ⟨d, hd, rfl⟩ := h
  simp [Hex.isDigit, (digitChar_facts d hd).1]

/-! ### Values -/

/-- In `value` the last digit has the least weight. -/
theorem value_append_singleton (ds : List Char) (c : Char) :
    value (ds ++ [c]) = 16 * value ds + (digitValue? c).getD 0 := by
  simp [value, List.foldl_append]

/-- `value` gives a number back from its `digits`. -/
theorem value_digits (n : Nat) : value (digits n) = n := by
  induction n using Nat.strongRecOn with
  | ind n ih =>
    rw [digits_eq]
    split
    next hn => simp [value, (digitChar_facts n hn).1]
    next hn =>
      rw [value_append_singleton, ih (n / 16) (by omega),
        (digitChar_facts (n % 16) (Nat.mod_lt _ (by decide))).1, Option.getD_some]
      omega

/-- The `digits` of different numbers are different texts. -/
theorem ofList_digits_injective : Function.Injective fun n => String.ofList (digits n) := by
  intro n m h
  have hlist : digits n = digits m := by simpa using congrArg String.toList h
  rw [← value_digits n, hlist, value_digits]

/-- `value` gives a number back from its `padded` digits. -/
theorem value_padded (n : Nat) : value (padded n) = n := by
  have hzeros : ∀ k, value (List.replicate k '0' ++ digits n) = value (digits n) := by
    intro k
    induction k with
    | zero => rfl
    | succ k ih =>
      rw [List.replicate_succ, List.cons_append]
      exact ih
  rw [padded, hzeros, value_digits]

/-- In `value` the first digit has the greatest weight. -/
theorem value_cons {ds : List Char} {c : Char} :
    value (c :: ds) = (digitValue? c).getD 0 * 16 ^ ds.length + value ds := by
  have hfold : ∀ (ds : List Char) (a : Nat),
      ds.foldl (fun n c => 16 * n + (digitValue? c).getD 0) a = a * 16 ^ ds.length + value ds := by
    intro ds
    induction ds with
    | nil => simp [value]
    | cons d ds ih =>
      intro a
      have hvalue : value (d :: ds) =
          (16 * 0 + (digitValue? d).getD 0) * 16 ^ ds.length + value ds := ih _
      rw [List.foldl_cons, ih, hvalue, List.length_cons, Nat.pow_succ]
      grind
  rw [value, List.foldl_cons, hfold]
  simp

/-- The `value` of some digits is less than the power of sixteen that their number gives. -/
theorem value_lt {ds : List Char} (h : ∀ c ∈ ds, IsLower c) : value ds < 16 ^ ds.length := by
  induction ds with
  | nil => decide
  | cons c ds ih =>
    obtain ⟨d, hd, hc⟩ := h c List.mem_cons_self
    have hrest := ih fun c hc => h c (List.mem_cons_of_mem _ hc)
    rw [value_cons, hc, (digitChar_facts d hd).1, Option.getD_some, List.length_cons, Nat.pow_succ]
    have hle : d * 16 ^ ds.length ≤ 15 * 16 ^ ds.length := Nat.mul_le_mul_right _ (by omega)
    omega

/-! ### Reading -/

/-- Digits have no mark in front, so `dropMark` keeps them all. -/
theorem dropMark_eq_self {cs : List Char} (h : ∀ c ∈ cs, IsLower c) : dropMark cs = cs := by
  unfold dropMark
  split
  next x d rest =>
    obtain ⟨e, he, hx⟩ := h x (by simp)
    have hfacts := digitChar_facts e he
    rw [if_neg]
    rintro ⟨hmark, -⟩
    rw [hx] at hmark
    rcases hmark with hmark | hmark
    · exact hfacts.2.2.2.2.1 hmark
    · exact hfacts.2.2.2.2.2.1 hmark
  next => rfl

/-- Digits are no NUL characters, so `untilNul` keeps them all. -/
theorem untilNul_eq_self {cs : List Char} (h : ∀ c ∈ cs, IsLower c) : untilNul cs = cs := by
  unfold untilNul
  rw [List.takeWhile_eq_self_iff]
  intro c hc
  obtain ⟨d, -, rfl⟩ := h c hc
  simp

/-- `readHex?` reads a text of digits as its `value`. -/
theorem readHex?_eq {cs : List Char} (h : ∀ c ∈ cs, IsLower c) (hne : cs ≠ []) :
    readHex? cs = some (false, value cs) := by
  obtain ⟨c, rest, rfl⟩ := List.exists_cons_of_ne_nil hne
  obtain ⟨d, hd, hc⟩ := h c List.mem_cons_self
  obtain ⟨-, hspace, hminus, hplus, -⟩ := digitChar_facts d hd
  rw [← hc] at hspace hminus hplus
  have hdigits : ∀ a ∈ c :: rest, isDigit a = true := fun a ha => (h a ha).isDigit
  have htake : (c :: rest).takeWhile isDigit = c :: rest := by
    rw [List.takeWhile_eq_self_iff]
    exact hdigits
  have hdrop : (c :: rest).dropWhile isDigit = [] := by
    rw [List.dropWhile_eq_nil_iff]
    exact hdigits
  unfold readHex?
  rw [untilNul_eq_self h, List.dropWhile_cons_of_neg (by simp [hspace])]
  dsimp only
  split
  next _ hsign => exact absurd (List.cons.inj hsign).1 hminus
  next _ hsign => exact absurd (List.cons.inj hsign).1 hplus
  next => simp [dropMark_eq_self h, htake, hdrop]

/-- `readHex?` reads a number from its `digits`. -/
theorem readHex?_digits (n : Nat) : readHex? (digits n) = some (false, n) := by
  rw [readHex?_eq (fun c hc => isLower_of_mem_digits hc) Nat.toDigits_ne_nil, value_digits]

-- What stands behind a NUL character does not count, so other texts are read as this number too.
example : readHex? "0X1\x00junk".toList = some (false, 1) := by decide

/-- `readHex?` reads a number from its `padded` digits. -/
theorem readHex?_padded (n : Nat) : readHex? (padded n) = some (false, n) := by
  have hne : padded n ≠ [] := List.append_ne_nil_of_right_ne_nil _ Nat.toDigits_ne_nil
  rw [readHex?_eq (fun c hc => isLower_of_mem_padded hc) hne, value_padded]

/-! ### Order -/

/-- Numbers of 64 bits are `padded` to sixteen digits. -/
theorem length_padded {n : Nat} (h : n < 2 ^ 64) : (padded n).length = 16 := by
  have hle : (digits n).length ≤ 16 := (Nat.length_toDigits_le_iff (by decide) (by decide)).2 h
  rw [padded, List.length_append, List.length_replicate]
  omega

/-- Among texts of equally many digits the bytes are ordered as the `value` of each. -/
theorem before_iff {as bs : List Char} (ha : ∀ c ∈ as, IsLower c) (hb : ∀ c ∈ bs, IsLower c)
    (hlen : as.length = bs.length) :
    Bytes.before (as.map fun c => c.toUInt8) (bs.map fun c => c.toUInt8) = true ↔
      value as < value bs := by
  induction as generalizing bs with
  | nil =>
    obtain rfl : bs = [] := List.length_eq_zero_iff.1 hlen.symm
    simp [Bytes.before]
  | cons a as ih =>
    cases bs with
    | nil => exact absurd hlen (by simp)
    | cons b bs =>
      have hlen' : as.length = bs.length := Nat.succ.inj hlen
      have has : ∀ c ∈ as, IsLower c := fun c hc => ha c (List.mem_cons_of_mem _ hc)
      have hbs : ∀ c ∈ bs, IsLower c := fun c hc => hb c (List.mem_cons_of_mem _ hc)
      have hrest := ih has hbs hlen'
      have hva := value_lt has
      have hvb := value_lt hbs
      obtain ⟨d, hd, rfl⟩ := ha a List.mem_cons_self
      obtain ⟨e, he, rfl⟩ := hb b List.mem_cons_self
      have hlt := digitChar_lt_iff d hd e he
      have hgt := digitChar_lt_iff e he d hd
      simp only [List.map_cons, Bytes.before, Bool.or_eq_true, decide_eq_true_eq, Bool.and_eq_true,
        beq_iff_eq, hrest, hlt]
      rw [value_cons, value_cons, (digitChar_facts d hd).1, (digitChar_facts e he).1,
        Option.getD_some, Option.getD_some, hlen']
      rw [hlen'] at hva
      rcases Nat.lt_trichotomy d e with hde | hde | hde
      · have hmul : (d + 1) * 16 ^ bs.length ≤ e * 16 ^ bs.length := Nat.mul_le_mul_right _ hde
        rw [Nat.succ_mul] at hmul
        exact iff_of_true (.inl hde) (by omega)
      · subst hde
        simp
      · have hmul : (e + 1) * 16 ^ bs.length ≤ d * 16 ^ bs.length := Nat.mul_le_mul_right _ hde
        rw [Nat.succ_mul] at hmul
        have hne : (Nat.digitChar d).toUInt8 ≠ (Nat.digitChar e).toUInt8 := by
          intro heq
          have hself := hgt.2 hde
          rw [heq] at hself
          exact UInt8.lt_irrefl _ hself
        refine iff_of_false ?_ (by omega)
        rintro (hlt' | ⟨heq, -⟩)
        · omega
        · exact hne heq

end Hex

end TaskScheduler
