import TaskScheduler.Proofs.Time.Timestamp

/-!
# Timestamps read leniently

What is written into a record is read back by `lenient?`, in every year that timestamps may have.
The lenient reader drops white space before each part and takes fewer digits than are written, so a
part is read to its end because what follows it is no digit, or because there is room for no more.
-/

namespace TaskScheduler

namespace Text

/-- A digit is not white space. -/
theorem isWhiteSpace_of_isDigit {c : Char} (h : c.isDigit = true) : isWhiteSpace c = false := by
  obtain ⟨hlow, hhigh⟩ : 48 ≤ c.toNat ∧ c.toNat ≤ 57 := by
    simpa [Char.isDigit, UInt32.le_iff_toNat_le] using h
  have hout : ∀ r ∈ whiteSpaceRanges, r.2 < 48 ∨ 57 < r.1 := by decide
  refine List.any_eq_false.2 fun r hr => ?_
  have := hout r hr
  rw [Bool.and_eq_true, decide_eq_true_eq, decide_eq_true_eq]
  omega

/-- `trimStart` drops nothing in front of a character that is not white space. -/
theorem trimStart_cons {c : Char} (h : isWhiteSpace c = false) (cs : List Char) :
    trimStart (c :: cs) = c :: cs :=
  List.dropWhile_cons_of_neg (by simp [h])

end Text

namespace Timestamp

/-! ### Parts -/

/-- A `padded` number begins with a digit. -/
theorem exists_padded_eq_cons (width n : Nat) :
    ∃ c cs, padded width n = c :: cs ∧ c.isDigit = true := by
  obtain ⟨c, cs, hcons⟩ : ∃ c cs, padded width n = c :: cs :=
    List.exists_cons_of_ne_nil (List.append_ne_nil_of_right_ne_nil _ Nat.toDigits_ne_nil)
  exact ⟨c, cs, hcons, isDigit_of_mem_padded (hcons ▸ List.mem_cons_self)⟩

/-- `trimStart` drops nothing in front of a `padded` number. -/
theorem trimStart_padded {width n : Nat} (rest : List Char) :
    Text.trimStart (padded width n ++ rest) = padded width n ++ rest := by
  obtain ⟨c, cs, hcons, hc⟩ := exists_padded_eq_cons width n
  rw [hcons]
  exact Text.trimStart_cons (Text.isWhiteSpace_of_isDigit hc) _

/-- `readDigits` reads a `padded` number in front of a text that begins without a digit, if its own
number of digits lies between the least and the greatest. -/
theorem readDigits_padded_cons {width n least most : Nat}
    (hleast : least ≤ (padded width n).length) (hmost : (padded width n).length ≤ most) {c : Char}
    (hc : c.isDigit = false) (rest : List Char) :
    readDigits least most (padded width n ++ c :: rest) = some (n, c :: rest) := by
  have hdigits : ((padded width n ++ c :: rest).take most).takeWhile Char.isDigit =
      padded width n := by
    rw [List.take_append, List.take_of_length_le hmost,
      List.takeWhile_append_of_pos fun c hc => isDigit_of_mem_padded hc]
    -- what is left of the rest, if anything, begins without a digit
    cases most - (padded width n).length with
    | zero => simp
    | succ k => rw [List.take_succ_cons, List.takeWhile_cons_of_neg (by simp [hc]), List.append_nil]
  unfold readDigits
  dsimp only
  rw [hdigits, if_neg (by omega), decimalValue_padded, List.drop_left]

/-- `readDigits` reads two digits in front of a text that begins without a digit. -/
theorem readDigits_two {n : Nat} (h : n < 100) {c : Char} (hc : c.isDigit = false)
    (rest : List Char) : readDigits 1 2 (padded 2 n ++ c :: rest) = some (n, c :: rest) := by
  have hlength : (padded 2 n).length = 2 := length_padded (by decide) h
  exact readDigits_padded_cons (by omega) (by omega) hc rest

/-- `readYear` takes a minus sign in front of a year. -/
theorem readYear_minus {cs rest : List Char} {n : Nat}
    (h : readDigits 1 cs.length cs = some (n, rest)) :
    readYear ('-' :: cs) = some (-(n : Int), rest) := by
  simp [readYear, h]

/-- `readYear` takes a plus sign in front of a year. -/
theorem readYear_plus {cs rest : List Char} {n : Nat}
    (h : readDigits 1 cs.length cs = some (n, rest)) :
    readYear ('+' :: cs) = some ((n : Int), rest) := by
  simp [readYear, h]

/-- `readYear` reads a year without a sign. -/
theorem readYear_of_isDigit {c : Char} (hc : c.isDigit = true) {cs rest : List Char} {n : Nat}
    (h : readDigits 1 4 (c :: cs) = some (n, rest)) :
    readYear (c :: cs) = some ((n : Int), rest) := by
  unfold readYear
  dsimp only
  split
  next hcons =>
    rw [(List.cons.inj hcons).1] at hc
    exact absurd hc (by decide)
  next hcons =>
    rw [(List.cons.inj hcons).1] at hc
    exact absurd hc (by decide)
  next => rw [h]

/-- `readYear` reads a year back from its `yearChars`, which have a sign outside of four digits. -/
theorem readYear_yearChars (year : Int) (rest : List Char) :
    readYear (Text.trimStart (yearChars year ++ '-' :: rest)) = some (year, '-' :: rest) := by
  have hminus : '-'.isDigit = false := by decide
  obtain ⟨c, cs, hcons, hc⟩ := exists_padded_eq_cons 4 year.natAbs
  have hpos : 1 ≤ (padded 4 year.natAbs).length := by simp [hcons]
  unfold yearChars
  split
  next hfour =>
    have hlength : (padded 4 year.natAbs).length = 4 := length_padded (by decide) (by omega)
    have hread := readDigits_padded_cons hpos (Nat.le_of_eq hlength) hminus rest
    have hyear : (year.natAbs : Int) = year := by omega
    rw [trimStart_padded]
    rw [hcons, List.cons_append] at hread ⊢
    rw [readYear_of_isDigit hc hread, hyear]
  next =>
    have hmost : (padded 4 year.natAbs).length ≤ (padded 4 year.natAbs ++ '-' :: rest).length := by
      simp
    have hread := readDigits_padded_cons hpos hmost hminus rest
    split
    next hneg =>
      have hyear : -(year.natAbs : Int) = year := by omega
      rw [List.cons_append, Text.trimStart_cons (by decide), readYear_minus hread, hyear]
    next hneg =>
      have hyear : (year.natAbs : Int) = year := by omega
      rw [List.cons_append, Text.trimStart_cons (by decide), readYear_plus hread, hyear]

/-- The `fractionChars` of a time begin with a point, if there are any. -/
theorem exists_fractionChars_append (nano : Nat) {c : Char} (hc : c.isDigit = false)
    (rest : List Char) :
    ∃ c' cs, fractionChars nano ++ c :: rest = c' :: cs ∧ c'.isDigit = false := by
  have hpoint : '.'.isDigit = false := by decide
  unfold fractionChars
  split
  next => exact ⟨c, rest, rfl, hc⟩
  next =>
    split
    next => exact ⟨'.', _, List.cons_append, hpoint⟩
    next =>
      split
      next => exact ⟨'.', _, List.cons_append, hpoint⟩
      next => exact ⟨'.', _, List.cons_append, hpoint⟩

/-- `lenient?` reads a timestamp back from its form in records. -/
theorem lenient?_toText {t : Timestamp} (h : t.inRange = true) : lenient? t.toText = some t := by
  obtain ⟨hsecond, hnano⟩ := t.shownSecond_lt
  obtain ⟨hmonth, hday, hhour, hminute⟩ := t.parts_lt
  have hlist : t.toText.toList = t.bodyChars ++ ['Z'] := String.toList_ofList
  have hdash : '-'.isDigit = false ∧ Text.isWhiteSpace '-' = false := by decide
  have hcolon : ':'.isDigit = false ∧ Text.isWhiteSpace ':' = false := by decide
  have hletters : 'T'.isDigit = false ∧ 'Z'.isDigit = false ∧ 'Z' ≠ '.' := by decide
  have hseparator : ∀ rest, readSeparator ('T' :: rest) = some rest := fun _ => rfl
  have hlast : readDigits 1 2
      (padded 2 t.shownSecond.1 ++ (fractionChars t.shownSecond.2 ++ ['Z'])) =
        some (t.shownSecond.1, fractionChars t.shownSecond.2 ++ ['Z']) := by
    obtain ⟨c, cs, hcons, hc⟩ := exists_fractionChars_append t.shownSecond.2 hletters.2.1 []
    rw [hcons]
    exact readDigits_two hsecond hc cs
  have hoffset : readLenientOffset (Text.trimStart ['Z']) = some (0, []) := by decide
  have hend : Text.trimStart [] = [] := rfl
  unfold lenient?
  rw [hlist, bodyChars_append]
  simp only [Option.bind_eq_bind, Option.bind_some, readYear_yearChars, readChar_self,
    Text.trimStart_cons hdash.2, Text.trimStart_cons hcolon.2, trimStart_padded,
    readDigits_two hmonth hdash.1, readDigits_two hday hletters.1, hseparator,
    readDigits_two hhour hcolon.1, readDigits_two hminute hcolon.1, hlast,
    readFraction_fractionChars hnano hletters.2.1 hletters.2.2, hoffset, hend, if_true,
    ofReading?_shown h]

end Timestamp

end TaskScheduler
