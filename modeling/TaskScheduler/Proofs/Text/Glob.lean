import TaskScheduler.Proofs.Text.Utf8
import TaskScheduler.Text.Glob

/-!
# What glob patterns match

A pattern of literal bytes with a star behind them matches the byte strings that begin with these
bytes.  Four bytes are not literal.  When one of them stands before a colon and a star, the pattern
does not match what begins with the text, or it matches some text that does not.
-/

namespace TaskScheduler.Glob

open Bytes

/-! ### Patterns byte by byte -/

/-- The characters that are not taken literally. -/
def specialChars : List Char := ['*', '?', '[', '\\']

/-- The bytes that are not taken literally. -/
def specials : List UInt8 := specialChars.map byte

/-- A pattern without special bytes. -/
def IsLiteral (pattern : List UInt8) : Prop := ∀ b ∈ pattern, b ∉ specials

instance (pattern : List UInt8) : Decidable (IsLiteral pattern) :=
  List.decidableBAll (· ∉ specials) pattern

variable {ps cs : List UInt8} {p c : UInt8}

/-- `isMatch` takes the empty byte string for a pattern of stars only. -/
theorem isMatch_nil_right (ps : List UInt8) : isMatch ps [] = ps.all (· == byte '*') := by
  cases ps <;> unfold isMatch <;> rfl

/-- `isMatch` looks at the first byte of the pattern and at that of the text. -/
theorem isMatch_cons_cons (p : UInt8) (ps : List UInt8) (c : UInt8) (cs : List UInt8) :
    isMatch (p :: ps) (c :: cs) =
      if p = byte '*' then isMatch ps (c :: cs) || isMatch (p :: ps) cs
      else if p = byte '?' then isMatch ps cs
      else if p = byte '[' then (inBrackets c ps).1 && isMatch (inBrackets c ps).2 cs
      else if p = byte '\\' then
        match ps with
        | q :: qs => q == c && isMatch qs cs
        | [] => p == c && cs.isEmpty
      else p == c && isMatch ps cs :=
  isMatch.eq_def (p :: ps) (c :: cs)

/-- A star stands for any bytes. -/
theorem isMatch_star_iff (ps text : List UInt8) :
    isMatch (byte '*' :: ps) text = true ↔ ∃ x y, text = x ++ y ∧ isMatch ps y = true := by
  induction text with
  | nil =>
    rw [isMatch_nil_right, List.all_cons, beq_self_eq_true, Bool.true_and, ← isMatch_nil_right]
    constructor
    · exact fun h => ⟨[], [], rfl, h⟩
    · rintro ⟨x, y, h, hy⟩
      rwa [(List.append_eq_nil_iff.1 h.symm).2] at hy
  | cons c cs ih =>
    rw [isMatch_cons_cons, if_pos rfl, Bool.or_eq_true, ih]
    constructor
    · rintro (h | ⟨x, y, rfl, hy⟩)
      · exact ⟨[], c :: cs, rfl, h⟩
      · exact ⟨c :: x, y, rfl, hy⟩
    · rintro ⟨x, y, h, hy⟩
      cases x with
      | nil => exact .inl (by rwa [h])
      | cons d x => exact .inr ⟨x, y, (List.cons.inj h).2, hy⟩

/-- A question mark stands for one byte. -/
theorem isMatch_one (ps cs : List UInt8) (c : UInt8) :
    isMatch (byte '?' :: ps) (c :: cs) = isMatch ps cs := by
  rw [isMatch_cons_cons, if_neg (by decide), if_pos rfl]

/-- Brackets stand for one byte of their set. -/
theorem isMatch_brackets (ps cs : List UInt8) (c : UInt8) :
    isMatch (byte '[' :: ps) (c :: cs) =
      ((inBrackets c ps).1 && isMatch (inBrackets c ps).2 cs) := by
  rw [isMatch_cons_cons, if_neg (by decide), if_neg (by decide), if_pos rfl]

/-- A byte after a backslash stands for itself. -/
theorem isMatch_escape (ps cs : List UInt8) (p c : UInt8) :
    isMatch (byte '\\' :: p :: ps) (c :: cs) = (p == c && isMatch ps cs) := by
  rw [isMatch_cons_cons, if_neg (by decide), if_neg (by decide), if_neg (by decide), if_pos rfl]

/-- A literal byte stands for itself. -/
theorem isMatch_literal (hp : p ∉ specials) (ps cs : List UInt8) (c : UInt8) :
    isMatch (p :: ps) (c :: cs) = (p == c && isMatch ps cs) := by
  simp only [specials, specialChars, List.map_cons, List.map_nil, List.mem_cons, List.not_mem_nil,
    or_false, not_or] at hp
  obtain ⟨hstar, hone, hset, hescape⟩ := hp
  rw [isMatch_cons_cons, if_neg hstar, if_neg hone, if_neg hset, if_neg hescape]

/-- A pattern that `IsLiteral`, with a star behind it, matches what begins with its bytes. -/
theorem isMatch_append_star {lit : List UInt8} (h : IsLiteral lit) (text : List UInt8) :
    isMatch (lit ++ [byte '*']) text = lit.isPrefixOf text := by
  induction lit generalizing text with
  | nil =>
    rw [List.nil_append, List.isPrefixOf_nil_left, isMatch_star_iff]
    exact ⟨text, [], (List.append_nil text).symm, by rw [isMatch]; rfl⟩
  | cons p lit ih =>
    obtain ⟨hp, hlit⟩ := List.forall_mem_cons.1 h
    cases text with
    | nil =>
      have hstar : (p == byte '*') = false := by
        rw [beq_eq_false_iff_ne]
        rintro rfl
        exact hp (by decide)
      rw [isMatch_nil_right, List.cons_append, List.all_cons, hstar, Bool.false_and]
      rfl
    | cons c text =>
      rw [List.cons_append, isMatch_literal hp, ih hlit, List.isPrefixOf_cons_cons]

/-! ### What brackets take -/

/-- `inSet` takes a byte of the pattern, and leaves an end of the rest. -/
theorem suffix_inSet (c : UInt8) (p : List UInt8) : (inSet c p).2 <:+ p.tail := by
  fun_induction inSet c p with
  | case1 | case2 | case4 | case5 | case6 => exact List.nil_suffix
  | case3 | case7 => exact List.suffix_rfl
  | case8 b z rest _ ih =>
    have htail : rest <:+ b :: z :: rest := ⟨[b, z], rfl⟩
    exact ih.trans htail
  | case9 a z rest _ _ ih =>
    have htail : rest <:+ byte '-' :: z :: rest := ⟨[byte '-', z], rfl⟩
    exact ih.trans (rest.tail_suffix.trans htail)
  | case10 a b z rest _ _ _ ih => exact ih.trans (List.suffix_cons b _)

/-- `inBrackets` takes a byte of the pattern, and leaves an end of the rest. -/
theorem suffix_inBrackets (c : UInt8) (p : List UInt8) : (inBrackets c p).2 <:+ p.tail := by
  unfold inBrackets
  split
  next rest => exact (suffix_inSet c rest).trans rest.tail_suffix
  next => exact suffix_inSet c p

/-! ### Special bytes before the colon -/

/-- After something without a byte of its own, a text does not begin as it did. -/
theorem not_prefix_insert {z y : Bytes} {a : UInt8} (hz : z ≠ []) (haz : a ∉ z) (hay : a ∈ y) :
    ¬ y <+: z ++ y := by
  rintro ⟨rest, h⟩
  have hfirst := congrArg (List.idxOf a) h
  rw [List.idxOf_append_of_mem hay, List.idxOf_append_of_notMem haz] at hfirst
  have := List.length_pos_iff.2 hz
  omega

/-- What is left of a text that ends with a colon ends with it, or nothing is left. -/
def EndsWithColon (t : Bytes) : Prop := ∃ front, t <:+ front ++ [byte ':']

/-- If anything is left of a text that `EndsWithColon`, it ends with the colon. -/
theorem EndsWithColon.exists_eq {t : Bytes} (h : EndsWithColon t) (ht : t ≠ []) :
    ∃ front, t = front ++ [byte ':'] := by
  obtain ⟨front, hsuffix⟩ := h
  rcases List.suffix_concat_iff.1 hsuffix with rfl | ⟨t', rfl, -⟩
  · exact absurd rfl ht
  · exact ⟨t', rfl⟩

/-- An end of a text that `EndsWithColon` does so, too. -/
theorem EndsWithColon.of_suffix {t t' : Bytes} (h : EndsWithColon t) (hsuffix : t' <:+ t) :
    EndsWithColon t' := by
  obtain ⟨front, ht⟩ := h
  exact ⟨front, hsuffix.trans ht⟩

/-- If a text that `EndsWithColon` begins with another byte, this byte is not all of it. -/
theorem EndsWithColon.tail_ne_nil {t : Bytes} (h : EndsWithColon (c :: t)) (hc : c ≠ byte ':') :
    t ≠ [] := by
  rintro rfl
  obtain ⟨front, hfront⟩ := h.exists_eq (List.cons_ne_nil c [])
  have hlast := congrArg List.getLast? hfront
  rw [List.getLast?_singleton, List.getLast?_append, List.getLast?_singleton] at hlast
  exact hc (Option.some.inj hlast)

/-- After the text before it, something matches the pattern and does not begin as the text does. -/
def Strays (before pattern text : Bytes) : Prop :=
  ∃ t, IsUtf8 (before ++ t) ∧ isMatch pattern t = true ∧ ¬ text <+: t

variable {before v t : Bytes}

/-- A pattern that takes a byte `Strays` if what is left of it does after this byte. -/
theorem Strays.cons {pattern : Bytes} (h : Strays (before ++ [c]) v t)
    (hstep : ∀ t', isMatch v t' = true → isMatch pattern (c :: t') = true) :
    Strays before pattern (c :: t) := by
  obtain ⟨t', htext, hmatch, hnot⟩ := h
  refine ⟨c :: t', ?_, hstep t' hmatch, fun hprefix => hnot (List.cons_prefix_cons.1 hprefix).2⟩
  simpa using htext

/-- A single star `Strays` from what is left of a text, as the colon can be exchanged. -/
theorem strays_nil (htext : IsUtf8 (before ++ t)) (ht : EndsWithColon t) (hne : t ≠ []) :
    Strays before [byte '*'] t := by
  obtain ⟨front, rfl⟩ := ht.exists_eq hne
  refine ⟨front ++ [byte 'x'], ?_, ?_, fun hprefix => ?_⟩
  · rw [← List.append_assoc] at htext ⊢
    exact htext.exchange (by decide) (by decide)
  · exact (isMatch_append_star (List.forall_mem_nil _) _).trans List.isPrefixOf_nil_left
  · have heq := hprefix.eq_of_length (by simp)
    exact absurd (List.append_cancel_left heq) (by decide)

/-- A star in front of a pattern that matches `Strays`, as something can be put in for it. -/
theorem strays_star (hv : EndsWithColon (byte '*' :: v)) (ht : EndsWithColon t)
    (htext : IsUtf8 (before ++ t)) (hmatch : isMatch (byte '*' :: (v ++ [byte '*'])) t = true) :
    Strays before (byte '*' :: (v ++ [byte '*'])) t := by
  obtain ⟨x, y, rfl, hy⟩ := (isMatch_star_iff _ _).1 hmatch
  have hcolon : byte ':' ∈ v := by
    obtain ⟨front, hfront⟩ := hv.exists_eq (List.cons_ne_nil _ _)
    have hmem : byte ':' ∈ byte '*' :: v := by simp [hfront]
    exact (List.mem_cons.1 hmem).resolve_left (by decide)
  have hyne : y ≠ [] := by
    rintro rfl
    rw [isMatch_nil_right, List.all_eq_true] at hy
    exact absurd (hy _ (List.mem_append_left _ hcolon)) (by decide)
  obtain ⟨front, hyeq⟩ := (ht.of_suffix (List.suffix_append x y)).exists_eq hyne
  rw [← List.append_assoc] at htext
  obtain ⟨z, hz, hzcolon, hzip⟩ :=
    htext.exists_insert (a := byte ':') (b := byte 'x') (by decide) (by decide) (by decide)
  refine ⟨x ++ (z ++ y), by simpa using hzip, ?_, fun hprefix => ?_⟩
  · exact (isMatch_star_iff _ _).2 ⟨x ++ z, y, by simp, hy⟩
  · rw [List.prefix_append_right_inj] at hprefix
    exact not_prefix_insert hz hzcolon (by simp [hyeq]) hprefix

/-- A question mark against a question mark `Strays`, as it is matched by another byte as well. -/
theorem strays_one (htext : IsUtf8 (before ++ byte '?' :: t)) (hmatch : isMatch v t = true) :
    Strays before (byte '?' :: v) (byte '?' :: t) := by
  refine ⟨byte 'x' :: t, htext.exchange (by decide) (by decide), ?_, fun hprefix => ?_⟩
  · rw [isMatch_one, hmatch]
  · exact absurd (List.cons_prefix_cons.1 hprefix).1 (by decide)

/-- `inBrackets` leaves an end of the pattern with its star, as long as there is text to match. -/
theorem exists_inBrackets_eq (hv : v ≠ []) (hlength : v.length ≤ t.length)
    (hmatch : isMatch (inBrackets c (v ++ [byte '*'])).2 t = true) :
    ∃ w, (inBrackets c (v ++ [byte '*'])).2 = w ++ [byte '*'] ∧ w <:+ v ∧ w.length < t.length := by
  have hsuffix := suffix_inBrackets c (v ++ [byte '*'])
  rw [List.tail_append_of_ne_nil hv] at hsuffix
  have hpos := List.length_pos_iff.2 hv
  rcases List.suffix_concat_iff.1 hsuffix with hnil | ⟨w, hw, hwv⟩
  · rw [hnil, isMatch, List.isEmpty_iff] at hmatch
    rw [hmatch] at hlength
    simp only [List.length_nil] at hlength
    omega
  · have hle := hwv.length_le
    rw [List.length_tail] at hle
    exact ⟨w, hw, hwv.trans v.tail_suffix, by omega⟩

/-- An item that is not a star takes a byte and leaves an end of the pattern with its star.  What is
left is shorter than the text, unless the item is a single byte of the pattern. -/
theorem exists_step (hv : EndsWithColon (p :: v)) (hstar : p ≠ byte '*')
    (hlength : v.length ≤ t.length) (hmatch : isMatch (p :: (v ++ [byte '*'])) (c :: t) = true) :
    ∃ w, w <:+ v ∧ (w.length < t.length ∨ w = v ∧ (p = byte '?' ∨ p ∉ specials)) ∧
      isMatch (w ++ [byte '*']) t = true ∧
      ∀ t', isMatch (w ++ [byte '*']) t' = true →
        isMatch (p :: (v ++ [byte '*'])) (c :: t') = true := by
  by_cases hp : p ∈ specials
  · simp only [specials, specialChars, List.map_cons, List.map_nil, List.mem_cons,
      List.not_mem_nil, or_false] at hp
    rcases hp with rfl | rfl | rfl | rfl
    · exact absurd rfl hstar
    · rw [isMatch_one] at hmatch
      exact ⟨v, List.suffix_rfl, .inr ⟨rfl, .inl rfl⟩, hmatch, fun t' h => by rwa [isMatch_one]⟩
    · rw [isMatch_brackets, Bool.and_eq_true] at hmatch
      obtain ⟨hin, hrest⟩ := hmatch
      obtain ⟨w, hw, hwv, hshort⟩ :=
        exists_inBrackets_eq (hv.tail_ne_nil (by decide)) hlength hrest
      rw [hw] at hrest
      refine ⟨w, hwv, .inl hshort, hrest, fun t' h => ?_⟩
      rw [isMatch_brackets, hin, hw, h]
      rfl
    · obtain ⟨q, w, rfl⟩ := List.exists_cons_of_ne_nil (hv.tail_ne_nil (by decide))
      rw [List.cons_append, isMatch_escape, Bool.and_eq_true] at hmatch
      obtain ⟨hq, hrest⟩ := hmatch
      refine ⟨w, List.suffix_cons q w, .inl hlength, hrest, fun t' h => ?_⟩
      rw [List.cons_append, isMatch_escape, hq, h]
      rfl
  · rw [isMatch_literal hp, Bool.and_eq_true] at hmatch
    obtain ⟨hpc, hrest⟩ := hmatch
    refine ⟨v, List.suffix_rfl, .inr ⟨rfl, .inr hp⟩, hrest, fun t' h => ?_⟩
    rw [isMatch_literal hp, hpc, h]
    rfl

/-- A pattern that is shorter than a text that it matches, or is the text and not literal, `Strays`:
it matches something that does not begin as the text does. -/
theorem strays (hv : EndsWithColon v) (ht : EndsWithColon t) (hne : t ≠ [])
    (htext : IsUtf8 (before ++ t)) (hmatch : isMatch (v ++ [byte '*']) t = true)
    (hslack : v.length < t.length ∨ t = v ∧ ¬ IsLiteral v) :
    Strays before (v ++ [byte '*']) t := by
  induction hn : v.length using Nat.strongRecOn generalizing v t before with
  | ind n ih =>
    cases v with
    | nil => exact strays_nil htext ht hne
    | cons p v =>
      obtain ⟨c, t, rfl⟩ := List.exists_cons_of_ne_nil hne
      rw [List.cons_append] at hmatch ⊢
      rcases eq_or_ne p (byte '*') with rfl | hstar
      · exact strays_star hv ht htext hmatch
      have hlength : v.length ≤ t.length := by
        rcases hslack with hslack | ⟨heq, -⟩
        · exact Nat.le_of_lt (Nat.lt_of_succ_lt_succ hslack)
        · exact (congrArg List.length (List.cons.inj heq).2).ge
      obtain ⟨w, hwv, hw, hrest, hstep⟩ := exists_step hv hstar hlength hmatch
      have hrec : t ≠ [] → (w.length < t.length ∨ t = w ∧ ¬ IsLiteral w) →
          Strays before (p :: (v ++ [byte '*'])) (c :: t) := by
        intro hne' hslack'
        have hwlength : w.length < n := hn ▸ Nat.lt_succ_of_le hwv.length_le
        have hw' : EndsWithColon w := hv.of_suffix (hwv.trans (List.suffix_cons p v))
        have ht' : EndsWithColon t := ht.of_suffix (List.suffix_cons c t)
        have htext' : IsUtf8 ((before ++ [c]) ++ t) := by simpa using htext
        exact (ih w.length hwlength hw' ht' hne' htext' hrest hslack' rfl).cons hstep
      have hshort : w.length < t.length → Strays before (p :: (v ++ [byte '*'])) (c :: t) :=
        fun h => hrec (List.ne_nil_of_length_pos (Nat.zero_lt_of_lt h)) (.inl h)
      rcases hw with hw | ⟨rfl, hitem⟩
      · exact hshort hw
      rcases hslack with hslack | ⟨heq, hspecial⟩
      · exact hshort (Nat.lt_of_succ_lt_succ hslack)
      -- the text is the pattern, so a question mark stands in both or a literal byte in both
      obtain ⟨rfl, rfl⟩ := List.cons.inj heq
      rcases hitem with rfl | hp
      · exact strays_one htext hrest
      · have hspecial' : ¬ IsLiteral t := fun h => hspecial (List.forall_mem_cons.2 ⟨hp, h⟩)
        have hne' : t ≠ [] := by
          rintro rfl
          exact hspecial' (List.forall_mem_nil _)
        exact hrec hne' (.inr ⟨rfl, hspecial'⟩)

/-- `IsLiteral` holds of the bytes of a text when none of its characters is special. -/
theorem isLiteral_ofString_iff (s : String) :
    IsLiteral (ofString s) ↔ ∀ c ∈ s.toList, c ∉ specialChars := by
  have hascii : ∀ c ∈ specialChars, c.toNat < 128 := by simp [specialChars]
  constructor
  · intro h c hc hspecial
    exact h (byte c) ((mem_ofString_iff (hascii c hspecial) s).2 hc) (List.mem_map_of_mem hspecial)
  · intro h b hb hspecial
    obtain ⟨c, hc, rfl⟩ := List.mem_map.1 hspecial
    exact h c ((mem_ofString_iff (hascii c hc) s).1 hb) hc

/-- Among texts, a text before a colon and a star matches what begins with the text and the colon,
and nothing else, exactly when none of its characters is special. -/
theorem isMatch_eq_isPrefixOf_iff (front : String) :
    (∀ text, IsUtf8 text → isMatch (ofString (front ++ ":*")) text =
      (ofString (front ++ ":")).isPrefixOf text) ↔
    ∀ c ∈ front.toList, c ∉ specialChars := by
  have hpattern : ofString (front ++ ":*") = ofString (front ++ ":") ++ [byte '*'] := by
    rw [ofString_append, ofString_append, List.append_assoc]
    rfl
  have hcolon : ∀ c ∈ ":".toList, c ∉ specialChars := by simp [specialChars]
  have hliteral : (∀ c ∈ front.toList, c ∉ specialChars) ↔ IsLiteral (ofString (front ++ ":")) := by
    rw [isLiteral_ofString_iff, String.toList_append, List.forall_mem_append]
    exact (and_iff_left hcolon).symm
  rw [hpattern, hliteral]
  constructor
  · intro hexact
    by_contra hspecial
    have htext := isUtf8_ofString (front ++ ":")
    have hends : EndsWithColon (ofString (front ++ ":")) :=
      ⟨ofString front, by rw [ofString_append]; exact List.suffix_rfl⟩
    have hne : ofString (front ++ ":") ≠ [] := by
      rw [ofString_append]
      exact List.append_ne_nil_of_right_ne_nil _ (by decide)
    -- if the text and the colon match themselves, something else matches as well
    have hself : isMatch (ofString (front ++ ":") ++ [byte '*']) (ofString (front ++ ":")) = true :=
      (hexact _ htext).trans (List.isPrefixOf_iff_prefix.2 List.prefix_rfl)
    have hstrays : Strays [] _ _ := strays hends hends hne htext hself (.inr ⟨rfl, hspecial⟩)
    obtain ⟨t, ht, hmatch, hnot⟩ := hstrays
    rw [hexact t ht, List.isPrefixOf_iff_prefix] at hmatch
    exact hnot hmatch
  · exact fun h text _ => isMatch_append_star h text

end TaskScheduler.Glob
