import Mathlib.Data.List.TakeWhile
import TaskScheduler.Proofs.Number.Literal
import TaskScheduler.Time.Timestamp

/-!
# Timestamps read back

What is written into the key-value store in a year of four digits is read back by `strict?`.
-/

namespace TaskScheduler.Timestamp

/-! ### Padded numbers -/

/-- All characters of a `padded` number are digits. -/
theorem isDigit_of_mem_padded {width n : Nat} {c : Char} (h : c ∈ padded width n) :
    c.isDigit = true := by
  rcases List.mem_append.1 h with h | h
  · rw [(List.mem_replicate.1 h).2]
    decide
  · obtain ⟨d, hd, rfl⟩ := Decimal.exists_of_mem_digits h
    exact (Decimal.digitChar_facts d hd).2.1

/-- A number that fits is `padded` to the width. -/
theorem length_padded {width n : Nat} (hwidth : 0 < width) (h : n < 10 ^ width) :
    (padded width n).length = width := by
  have hle : (Nat.toDigits 10 n).length ≤ width :=
    (Nat.length_toDigits_le_iff (by decide) hwidth).2 h
  unfold padded
  rw [List.length_append, List.length_replicate]
  omega

/-- `decimalValue` gives a number back from its `padded` digits. -/
theorem decimalValue_padded (width n : Nat) : decimalValue (padded width n) = n := by
  have hzeros : ∀ k, decimalValue (List.replicate k '0' ++ Nat.toDigits 10 n) =
      decimalValue (Nat.toDigits 10 n) := by
    intro k
    induction k with
    | zero => rfl
    | succ k ih =>
      rw [List.replicate_succ, List.cons_append]
      exact ih
  exact (hzeros _).trans (Decimal.foldl_digits n)

/-- `readDigits` reads a `padded` number in front of any text. -/
theorem readDigits_padded {width n : Nat} (hwidth : 0 < width) (h : n < 10 ^ width)
    (rest : List Char) : readDigits width width (padded width n ++ rest) = some (n, rest) := by
  have hlength := length_padded hwidth h
  have htake : (padded width n ++ rest).take width = padded width n :=
    List.take_left' hlength
  have hdigits : (padded width n).takeWhile Char.isDigit = padded width n := by
    rw [List.takeWhile_eq_self_iff]
    exact fun c hc => isDigit_of_mem_padded hc
  unfold readDigits
  dsimp only
  rw [htake, hdigits, if_neg (by omega), decimalValue_padded, List.drop_left]

/-- `readTwo` reads a number of two digits in front of any text. -/
theorem readTwo_padded {n : Nat} (h : n < 100) (rest : List Char) :
    readTwo (padded 2 n ++ rest) = some (n, rest) := readDigits_padded (by decide) h rest

/-- `readChar` reads the character that it asks for. -/
theorem readChar_self (c : Char) (rest : List Char) : readChar c (c :: rest) = some rest :=
  if_pos rfl

/-- `readFraction` reads a fraction of a second in front of a text that begins without a digit. -/
theorem readFraction_dot {width n : Nat} (hwidth : 0 < width) (hnine : width ≤ 9)
    (h : n < 10 ^ width) {c : Char} (hc : c.isDigit = false) (rest : List Char) :
    readFraction ('.' :: padded width n ++ c :: rest) =
      some (n * 10 ^ (9 - width), c :: rest) := by
  have hlength := length_padded hwidth h
  have htake : (padded width n ++ c :: rest).takeWhile Char.isDigit = padded width n := by
    rw [List.takeWhile_append_of_pos fun c hc => isDigit_of_mem_padded hc,
      List.takeWhile_cons_of_neg (by rw [hc]; decide), List.append_nil]
  have hne : padded width n ≠ [] := by
    intro hnil
    rw [hnil] at hlength
    exact absurd hlength (by simp; omega)
  have hkept : (padded width n).take 9 = padded width n := List.take_of_length_le (by omega)
  simp only [readFraction, List.cons_append]
  rw [htake, if_neg hne, hkept, decimalValue_padded, List.drop_left, hlength]

/-- `readFraction` reads the `fractionChars` back, in front of a text that begins with neither a
digit nor a point. -/
theorem readFraction_fractionChars {nano : Nat} (h : nano < 10 ^ 9) {c : Char}
    (hc : c.isDigit = false) (hpoint : c ≠ '.') (rest : List Char) :
    readFraction (fractionChars nano ++ c :: rest) = some (nano, c :: rest) := by
  unfold fractionChars
  split
  next h0 =>
    subst h0
    rw [List.nil_append]
    unfold readFraction
    split
    next hcons => exact absurd (List.cons.inj hcons).1 hpoint
    next => rfl
  next =>
    split
    next h6 =>
      rw [readFraction_dot (by decide) (by decide) (by omega) hc]
      congr 2
      omega
    next =>
      split
      next h3 =>
        rw [readFraction_dot (by decide) (by decide) (by omega) hc]
        congr 2
        omega
      next =>
        rw [readFraction_dot (by decide) (by decide) h hc]
        congr 2
        omega

/-! ### Timestamps -/

/-- `ofLocal` with clocks that are not ahead of UTC keeps the time. -/
theorem ofLocal_zero (t : Timestamp) : t.ofLocal 0 = t := by
  have hin : 0 ≤ (t.second : Int) - 60 * 0 ∧ (t.second : Int) - 60 * 0 < 86400 := by
    have := t.second_lt
    omega
  unfold ofLocal
  dsimp only
  rw [dif_pos hin]
  simp

/-- `Date.ofParts?` gives a day back from its parts. -/
theorem ofParts?_date (d : Date) : Date.ofParts? d.year d.month d.day = some d := by
  unfold Date.ofParts?
  rw [dif_pos ⟨d.month_range, d.day_range⟩]

/-- The second and the nanosecond that are written for a timestamp. -/
def shownSecond (t : Timestamp) : Nat × Nat :=
  if 10 ^ 9 ≤ t.nano then (t.second % 60 + 1, t.nano - 10 ^ 9) else (t.second % 60, t.nano)

/-- The parts of a `shownSecond` are in range. -/
theorem shownSecond_lt (t : Timestamp) : t.shownSecond.1 < 100 ∧ t.shownSecond.2 < 10 ^ 9 := by
  have hnano := t.nano_lt
  unfold shownSecond
  split
  · dsimp only
    omega
  · dsimp only
    omega

/-- `ofParts?` gives a timestamp back from the parts that are written. -/
theorem ofParts?_shown (t : Timestamp) :
    ofParts? t.date.year t.date.month t.date.day (t.second / 3600) (t.second / 60 % 60)
      t.shownSecond.1 t.shownSecond.2 = some t := by
  obtain ⟨date, second, nano, hsecond, hnano, hleap⟩ := t
  have hdate := ofParts?_date date
  unfold ofParts?
  rw [hdate]
  dsimp only [shownSecond]
  split
  next hbig =>
    have h59 := hleap hbig
    rw [dif_pos (by dsimp only; omega), dif_pos (by dsimp only; omega)]
    simp only [Option.some.injEq, mk.injEq, true_and]
    omega
  next hsmall =>
    rw [dif_pos (by dsimp only; omega), dif_neg (by dsimp only; omega)]
    simp only [Option.some.injEq, mk.injEq, true_and, and_true]
    omega

/-- A timestamp in a year of four digits is `inRange`. -/
theorem inRange_of_year {t : Timestamp} (h : 0 ≤ t.date.year ∧ t.date.year ≤ 9999) :
    t.inRange = true := by
  unfold inRange
  rw [Bool.and_eq_true, decide_eq_true_eq, decide_eq_true_eq]
  omega

/-- The numbers that are written after the year have two digits. -/
theorem parts_lt (t : Timestamp) : t.date.month < 100 ∧ t.date.day < 100 ∧
    t.second / 3600 < 100 ∧ t.second / 60 % 60 < 100 := by
  have hmonth := t.date.month_range
  have hdays := t.date.day_range
  have hle : daysInMonth t.date.year t.date.month ≤ 31 := by
    unfold daysInMonth
    repeat' split
    all_goals omega
  have hsecond := t.second_lt
  omega

/-- The `bodyChars` of a timestamp are written part by part, in front of what comes after them. -/
theorem bodyChars_append (t : Timestamp) (rest : List Char) :
    t.bodyChars ++ rest = yearChars t.date.year ++ ('-' :: (padded 2 t.date.month ++
      ('-' :: (padded 2 t.date.day ++ ('T' :: (padded 2 (t.second / 3600) ++
      (':' :: (padded 2 (t.second / 60 % 60) ++ (':' :: (padded 2 t.shownSecond.1 ++
      (fractionChars t.shownSecond.2 ++ rest))))))))))) := by
  have hshown : (if 10 ^ 9 ≤ t.nano then (t.second % 60 + 1, t.nano - 10 ^ 9)
    else (t.second % 60, t.nano)) = t.shownSecond := rfl
  unfold bodyChars
  rw [hshown]
  simp only [List.append_assoc, List.cons_append]

/-- `ofReading?` gives a timestamp that is `inRange` back from the parts that are written. -/
theorem ofReading?_shown {t : Timestamp} (h : t.inRange = true) :
    ofReading? t.date.year t.date.month t.date.day (t.second / 3600) (t.second / 60 % 60)
      t.shownSecond.1 t.shownSecond.2 0 = some t := by
  unfold ofReading?
  rw [ofParts?_shown]
  simp [ofLocal_zero, h]

/-- `strict?` reads a timestamp in a year of four digits back from its form in the store. -/
theorem strict?_toOffsetText {t : Timestamp} (h : 0 ≤ t.date.year ∧ t.date.year ≤ 9999) :
    strict? t.toOffsetText = some t := by
  obtain ⟨hsecond, hnano⟩ := t.shownSecond_lt
  obtain ⟨hmonth, hday, hhour, hminute⟩ := t.parts_lt
  have hyear : yearChars t.date.year = padded 4 t.date.year.natAbs := if_pos h
  have hlist : t.toOffsetText.toList =
      t.bodyChars ++ '+' :: ['0', '0', ':', '0', '0'] := String.toList_ofList
  have hseparator : ∀ rest, readSeparator ('T' :: rest) = some rest := fun _ => rfl
  have hoffset : readOffset (readChar ':') ('+' :: ['0', '0', ':', '0', '0']) = some (0, []) := rfl
  have hreading := ofReading?_shown (inRange_of_year h)
  rw [show t.date.year = (t.date.year.natAbs : Int) by omega] at hreading
  unfold strict?
  rw [hlist, bodyChars_append, hyear, readDigits_padded (by decide) (by omega)]
  simp only [Option.bind_eq_bind, Option.bind_some, readChar_self, readTwo_padded hmonth,
    readTwo_padded hday, hseparator, readTwo_padded hhour, readTwo_padded hminute,
    readTwo_padded hsecond, readFraction_fractionChars hnano (show '+'.isDigit = false by decide)
      (show '+' ≠ '.' by decide), hoffset, if_true, hreading]

/-- `strict?` does not read a timestamp in another year, as its year has a sign. -/
theorem strict?_toOffsetText_eq_none {t : Timestamp}
    (h : ¬ (0 ≤ t.date.year ∧ t.date.year ≤ 9999)) : strict? t.toOffsetText = none := by
  obtain ⟨c, rest, hlist, hc⟩ :
      ∃ c rest, t.toOffsetText.toList = c :: rest ∧ c.isDigit = false := by
    have hsign : (if t.date.year < 0 then '-' else '+').isDigit = false := by
      split <;> decide
    unfold toOffsetText bodyChars yearChars
    rw [String.toList_ofList, if_neg h]
    exact ⟨_, _, rfl, hsign⟩
  have hyear : readDigits 4 4 (c :: rest) = none := by
    unfold readDigits
    dsimp only
    rw [List.take_succ_cons, List.takeWhile_cons_of_neg (by rw [hc]; decide)]
    rfl
  unfold strict?
  rw [hlist, hyear]
  rfl

end TaskScheduler.Timestamp
