import Mathlib.Data.List.TakeWhile
import TaskScheduler.Json.Text

/-!
# The grammar of written values

`Written f cs` says that the text `cs` writes the form `f`: words, numbers and strings as the
printer writes them, and blanks wherever they may stand.  The reader takes every such text, with
whatever follows it, and gives the form back.
-/

namespace TaskScheduler.Json

/-! ### Blanks -/

/-- Nothing but blanks. -/
def AreBlanks (bs : List Char) : Prop := ∀ c ∈ bs, isBlank c = true

variable {bs cs rest : List Char} {c : Char} {n : Nat}

/-- No blanks. -/
theorem areBlanks_nil : AreBlanks [] := List.forall_mem_nil _

/-- `skipBlanks` drops blanks in front. -/
theorem skipBlanks_append (h : AreBlanks bs) (cs : List Char) :
    skipBlanks (bs ++ cs) = skipBlanks cs :=
  List.dropWhile_append_of_pos h

/-- `skipBlanks` drops nothing where no blank stands. -/
theorem skipBlanks_cons (h : isBlank c = false) (cs : List Char) :
    skipBlanks (c :: cs) = c :: cs :=
  List.dropWhile_cons_of_neg (by simp [h])

/-- After blanks `skipBlanks` stands at the next character. -/
theorem skipBlanks_append_cons (h : AreBlanks bs) (hc : isBlank c = false) (cs : List Char) :
    skipBlanks (bs ++ c :: cs) = c :: cs := by
  rw [skipBlanks_append h, skipBlanks_cons hc]

/-! ### Numbers -/

/-- Nothing but decimal digits. -/
def AreDigits (ds : List Char) : Prop := ∀ c ∈ ds, c.isDigit = true

/-- The parts of a written number are what the grammar asks for. -/
structure NumberForm.IsSound (x : NumberForm) : Prop where
  /-- There are digits before the point. -/
  whole_ne : x.whole ≠ []
  /-- Before the point are digits. -/
  whole : AreDigits x.whole
  /-- A zero in front stands alone. -/
  zero : x.whole.head? = some '0' → x.whole = ['0']
  /-- After the point are digits. -/
  fraction : AreDigits x.fraction
  /-- The exponent has digits. -/
  exponent : ∀ e ∈ x.exponent, e.2 ≠ [] ∧ AreDigits e.2

/-- What follows does not go on with digits. -/
def EndsDigits (rest : List Char) : Prop := ∀ c ∈ rest.head?, c.isDigit = false

/-- What follows does not go on with a number. -/
def Stops (rest : List Char) : Prop :=
  ∀ c ∈ rest.head?, c.isDigit = false ∧ c ≠ '.' ∧ c ≠ 'e' ∧ c ≠ 'E'

/-- What `Stops` a number ends its digits. -/
theorem Stops.endsDigits (h : Stops rest) : EndsDigits rest := fun c hc => (h c hc).1

/-- The end of the text `Stops` a number. -/
theorem stops_nil : Stops [] := by
  rintro c ⟨⟩

/-- A character that belongs to no number `Stops` one. -/
theorem stops_cons (h : c.isDigit = false ∧ c ≠ '.' ∧ c ≠ 'e' ∧ c ≠ 'E') (rest : List Char) :
    Stops (c :: rest) := by
  rintro c' ⟨⟩
  exact h

/-- A blank ends a number. -/
theorem not_digit_of_isBlank (h : isBlank c = true) :
    c.isDigit = false ∧ c ≠ '.' ∧ c ≠ 'e' ∧ c ≠ 'E' := by
  simp only [isBlank, Bool.or_eq_true, decide_eq_true_eq] at h
  rcases h with ((rfl | rfl) | rfl) | rfl <;> decide

/-- Blanks in front of something that `Stops` a number do so, too. -/
theorem stops_blanks_append (h : AreBlanks bs) (hrest : Stops rest) : Stops (bs ++ rest) := by
  cases bs with
  | nil => exact hrest
  | cons c bs => exact stops_cons (not_digit_of_isBlank (h c List.mem_cons_self)) _

/-- `readDigits` reads digits up to their end. -/
theorem readDigits_append {ds : List Char} (hds : AreDigits ds) (hne : ds ≠ [])
    (hrest : EndsDigits rest) : readDigits (ds ++ rest) = some (ds, rest) := by
  have htake : (ds ++ rest).takeWhile Char.isDigit = ds := by
    rw [List.takeWhile_append_of_pos hds]
    cases rest with
    | nil => simp
    | cons c rest => simp [hrest c rfl]
  have hdrop : (ds ++ rest).dropWhile Char.isDigit = rest := by
    rw [List.dropWhile_append_of_pos hds]
    cases rest with
    | nil => rfl
    | cons c rest => exact List.dropWhile_cons_of_neg (by simp [hrest c rfl])
  unfold readDigits
  rw [htake, hdrop, if_neg hne]

/-- `readWhole` reads the digits before the point. -/
theorem readWhole_append {x : NumberForm} (h : x.IsSound) (hrest : EndsDigits rest) :
    readWhole (x.whole ++ rest) = some (x.whole, rest) := by
  unfold readWhole
  rw [readDigits_append h.whole h.whole_ne hrest]
  dsimp only
  rw [if_neg]
  rintro ⟨hzero, hne⟩
  exact hne (h.zero hzero)

/-- The point and the digits after it in a text. -/
def fractionText (ds : List Char) : List Char := if ds = [] then [] else '.' :: ds

/-- An exponent in a text. -/
def exponentText : Option (Bool × List Char) → List Char
  | none => []
  | some (minus, ds) => 'e' :: (if minus then '-' else '+') :: ds

/-- `readExponent` reads an exponent from its `exponentText`. -/
theorem readExponent_append {e : Option (Bool × List Char)}
    (he : ∀ e' ∈ e, e'.2 ≠ [] ∧ AreDigits e'.2) (hrest : Stops rest) :
    readExponent (exponentText e ++ rest) = some (e, rest) := by
  rcases e with _ | ⟨minus, ds⟩
  · rw [exponentText, List.nil_append]
    cases rest with
    | nil => rfl
    | cons c rest =>
      obtain ⟨-, -, he, hE⟩ := hrest c rfl
      exact if_neg (by simp [he, hE])
  · obtain ⟨hne, hds⟩ := he _ rfl
    have hread := readDigits_append hds hne hrest.endsDigits
    cases minus <;> simp [exponentText, readExponent, readExponentSign, hread]

/-- An `exponentText`, or what follows it, ends the digits before it. -/
theorem endsDigits_exponentText (e : Option (Bool × List Char)) (hrest : Stops rest) :
    EndsDigits (exponentText e ++ rest) := by
  rcases e with _ | ⟨minus, ds⟩
  · exact hrest.endsDigits
  · rintro c ⟨⟩
    decide

/-- `readFraction` reads a fraction from its `fractionText`. -/
theorem readFraction_append {ds : List Char} (hds : AreDigits ds) (e : Option (Bool × List Char))
    (hrest : Stops rest) : readFraction (fractionText ds ++ (exponentText e ++ rest)) =
      some (ds, exponentText e ++ rest) := by
  unfold fractionText
  split
  next hnil =>
    have hdot : ∀ t, [] ++ (exponentText e ++ rest) ≠ '.' :: t := by
      rintro t ht
      rcases e with _ | ⟨minus, ds'⟩
      · have hhead := (hrest '.' (by simpa [exponentText] using congrArg List.head? ht)).2.1
        exact hhead rfl
      · cases ht
    unfold readFraction
    split
    next t ht => exact absurd ht (hdot t)
    next => rw [hnil, List.nil_append]
  next hne => exact readDigits_append hds hne (endsDigits_exponentText e hrest)

/-- A `fractionText`, or what follows it, ends the digits before it. -/
theorem endsDigits_fractionText (ds : List Char) (e : Option (Bool × List Char))
    (hrest : Stops rest) : EndsDigits (fractionText ds ++ (exponentText e ++ rest)) := by
  unfold fractionText
  split
  · exact endsDigits_exponentText e hrest
  · rintro c ⟨⟩
    decide

/-- What is behind the sign of a number in a text with something behind it. -/
def afterSign (x : NumberForm) (rest : List Char) : List Char :=
  x.whole ++ (fractionText x.fraction ++ (exponentText x.exponent ++ rest))

/-- `NumberForm.render` writes a sign, if the number is negative, and the rest. -/
theorem render_append_eq (x : NumberForm) (rest : List Char) :
    x.render ++ rest = (if x.negative then ['-'] else []) ++ afterSign x rest := by
  obtain ⟨negative, whole, fraction, exponent⟩ := x
  cases fraction <;> cases exponent <;>
    simp only [NumberForm.render, afterSign, fractionText, exponentText, List.append_assoc]

/-- Behind the sign of a number is a digit. -/
theorem NumberForm.IsSound.exists_cons {x : NumberForm} (h : x.IsSound) (rest : List Char) :
    ∃ d ds, d.isDigit = true ∧ afterSign x rest = d :: ds := by
  obtain ⟨d, ds, hd⟩ := List.exists_cons_of_ne_nil h.whole_ne
  have hdigit : d.isDigit = true := h.whole d (hd ▸ List.mem_cons_self)
  exact ⟨d, _, hdigit, by rw [afterSign, hd, List.cons_append]⟩

/-- `readNumber` reads a number from what `NumberForm.render` wrote. -/
theorem readNumber_append {x : NumberForm} (h : x.IsSound) (hrest : Stops rest) :
    readNumber (x.render ++ rest) = some (x, rest) := by
  have hwhole : readWhole (afterSign x rest) = some (x.whole, _) :=
    readWhole_append h (endsDigits_fractionText x.fraction x.exponent hrest)
  have hfraction := readFraction_append h.fraction x.exponent hrest
  have hexponent := readExponent_append h.exponent hrest
  have hsign := render_append_eq x rest
  obtain ⟨d, ds, hdigit, hd⟩ := h.exists_cons rest
  obtain ⟨negative, whole, fraction, exponent⟩ := x
  cases negative with
  | true => simp [hsign, readNumber, hwhole, hfraction, hexponent]
  | false =>
    have hminus : d ≠ '-' := by
      rintro rfl
      exact absurd hdigit (by decide)
    rw [hd] at hwhole hsign
    simp [hsign, readNumber, hminus, hwhole, hfraction, hexponent]

/-! ### Strings -/

/-- A piece of a string that is written as the grammar asks for. -/
def Piece.IsSound : Piece → Prop
  | .plain c => c ≠ '"' ∧ c ≠ '\\' ∧ ¬ c.toNat < 0x20
  | .escape c => (letterOf? c).isSome
  | .unit n => n < 2 ^ 16

/-- Each of the `escapeLetters` is read back, and none of them is that of a unit. -/
theorem escapeLetters_facts : ∀ e ∈ escapeLetters,
    letterOf? e.1 = some e.2 ∧ ofLetter? e.2 = some e.1 ∧ e.2 ≠ 'u' := by
  decide

/-- A character that `letterOf?` gives a letter is read from this letter. -/
theorem exists_letterOf?_eq (h : (letterOf? c).isSome) :
    ∃ l, letterOf? c = some l ∧ ofLetter? l = some c ∧ l ≠ 'u' := by
  obtain ⟨l, hl⟩ := Option.isSome_iff_exists.1 h
  obtain ⟨e, he, hel⟩ := Option.map_eq_some_iff.1 hl
  obtain rfl : e.1 = c := by simpa using List.find?_some he
  obtain ⟨hletter, hback, hu⟩ := escapeLetters_facts e (List.mem_of_find?_eq_some he)
  exact ⟨e.2, hletter, hback, hu⟩

/-- `hexValue?` reads a `hexDigit` back. -/
theorem hexValue?_hexDigit : ∀ d < 16, hexValue? (hexDigit d) = some d := by decide

/-- `unitOf?` reads a unit from its four digits. -/
theorem unitOf?_hexDigits (h : n < 2 ^ 16) :
    unitOf? (hexDigit (n / 4096 % 16)) (hexDigit (n / 256 % 16)) (hexDigit (n / 16 % 16))
      (hexDigit (n % 16)) = some n := by
  have hdigit : ∀ m, hexValue? (hexDigit (m % 16)) = some (m % 16) := fun m =>
    hexValue?_hexDigit _ (Nat.mod_lt _ (by decide))
  unfold unitOf?
  rw [hdigit, hdigit, hdigit, hdigit]
  simp only [Option.some.injEq]
  omega

/-- `readPieces` reads a string from what `Piece.render` wrote, up to the quote that ends it. -/
theorem readPieces_append {ps : List Piece} (h : ∀ p ∈ ps, p.IsSound) (hn : ps.length < n)
    (rest : List Char) :
    readPieces n (ps.flatMap Piece.render ++ '"' :: rest) = some (ps, rest) := by
  induction ps generalizing n with
  | nil =>
    obtain ⟨n, rfl⟩ := Nat.exists_eq_succ_of_ne_zero (Nat.ne_of_gt hn)
    simp [readPieces]
  | cons p ps ih =>
    obtain ⟨n, rfl⟩ := Nat.exists_eq_succ_of_ne_zero (Nat.ne_of_gt (Nat.zero_lt_of_lt hn))
    obtain ⟨hp, hps⟩ := List.forall_mem_cons.1 h
    have hread := ih hps (Nat.lt_of_succ_lt_succ hn)
    rw [List.flatMap_cons, List.append_assoc]
    cases p with
    | plain c =>
      obtain ⟨hquote, hslash, hcontrol⟩ := hp
      simp only [Piece.render, List.cons_append, List.nil_append]
      rw [readPieces.eq_def]
      dsimp only
      rw [if_neg hquote, if_neg hslash, if_neg hcontrol, hread]
    | escape c =>
      obtain ⟨l, hl, hback, hu⟩ := exists_letterOf?_eq hp
      simp only [Piece.render, hl, Option.getD_some, List.cons_append, List.nil_append]
      rw [readPieces.eq_def]
      dsimp only
      rw [if_neg (by decide), if_pos rfl, if_neg hu, hback, hread]
    | unit m =>
      simp only [Piece.render, List.cons_append, List.nil_append]
      rw [readPieces, if_neg (by decide), if_pos rfl, if_pos rfl, unitOf?_hexDigits hp, hread]

/-! ### Values -/

mutual

/-- A text that writes a form. -/
inductive Written : Form → List Char → Prop where
  /-- The word `null`. -/
  | null : Written .null "null".toList
  /-- The word `true`. -/
  | isTrue : Written (.bool true) "true".toList
  /-- The word `false`. -/
  | isFalse : Written (.bool false) "false".toList
  /-- A number. -/
  | num {x : NumberForm} (h : x.IsSound) : Written (.num x) x.render
  /-- A string. -/
  | str {ps : List Piece} (h : ∀ p ∈ ps, p.IsSound) : Written (.str ps) (renderPieces ps)
  /-- Brackets with nothing but blanks between them. -/
  | emptyArr {bs : List Char} (h : AreBlanks bs) : Written (.arr []) ('[' :: (bs ++ [']']))
  /-- Items in brackets. -/
  | arr {fs : List Form} {cs : List Char} (h : WrittenItems fs cs) : Written (.arr fs) ('[' :: cs)
  /-- Braces with nothing but blanks between them. -/
  | emptyObj {bs : List Char} (h : AreBlanks bs) : Written (.obj []) ('\x7b' :: (bs ++ ['\x7d']))
  /-- Members in braces. -/
  | obj {ms : List (List Piece × Form)} {cs : List Char} (h : WrittenMembers ms cs) :
    Written (.obj ms) ('\x7b' :: cs)

/-- A text that writes items one after another and the bracket that ends them. -/
inductive WrittenItems : List Form → List Char → Prop where
  /-- The last item. -/
  | last {f : Form} {before cs after : List Char} (hbefore : AreBlanks before)
    (h : Written f cs) (hafter : AreBlanks after) :
    WrittenItems [f] (before ++ (cs ++ (after ++ [']'])))
  /-- An item with others behind it. -/
  | cons {f : Form} {fs : List Form} {before cs after ds : List Char} (hbefore : AreBlanks before)
    (h : Written f cs) (hafter : AreBlanks after) (hs : WrittenItems fs ds) :
    WrittenItems (f :: fs) (before ++ (cs ++ (after ++ ',' :: ds)))

/-- A text that writes members one after another and the brace that ends them. -/
inductive WrittenMembers : List (List Piece × Form) → List Char → Prop where
  /-- The last member. -/
  | last {k : List Piece} {f : Form} {before colon gap cs after : List Char}
    (hbefore : AreBlanks before) (hk : ∀ p ∈ k, p.IsSound) (hcolon : AreBlanks colon)
    (hgap : AreBlanks gap) (h : Written f cs) (hafter : AreBlanks after) :
    WrittenMembers [(k, f)]
      (before ++ (renderPieces k ++ (colon ++ ':' :: (gap ++ (cs ++ (after ++ ['\x7d']))))))
  /-- A member with others behind it. -/
  | cons {k : List Piece} {f : Form} {ms : List (List Piece × Form)}
    {before colon gap cs after ds : List Char}
    (hbefore : AreBlanks before) (hk : ∀ p ∈ k, p.IsSound) (hcolon : AreBlanks colon)
    (hgap : AreBlanks gap) (h : Written f cs) (hafter : AreBlanks after)
    (hs : WrittenMembers ms ds) :
    WrittenMembers ((k, f) :: ms)
      (before ++ (renderPieces k ++ (colon ++ ':' :: (gap ++ (cs ++ (after ++ ',' :: ds))))))

end

/-- A digit is no blank and no bracket. -/
theorem not_mark_of_isDigit (h : c.isDigit = true) :
    isBlank c = false ∧ c ≠ ']' ∧ c ≠ '\x7d' ∧ c ≠ 'n' ∧ c ≠ 't' ∧ c ≠ 'f' ∧ c ≠ '"' ∧ c ≠ '[' ∧
      c ≠ '\x7b' := by
  refine ⟨?_, ?_, ?_, ?_, ?_, ?_, ?_, ?_, ?_⟩
  · rw [Bool.eq_false_iff]
    intro hblank
    rw [(not_digit_of_isBlank hblank).1] at h
    cases h
  all_goals
    rintro rfl
    exact absurd h (by decide)

/-- `NumberForm.render` begins with a sign or with a digit. -/
theorem NumberForm.IsSound.exists_render {x : NumberForm} (h : x.IsSound) (rest : List Char) :
    ∃ c ds, x.render ++ rest = c :: ds ∧ (c = '-' ∨ c.isDigit = true) := by
  rw [render_append_eq]
  split
  · exact ⟨'-', _, rfl, .inl rfl⟩
  · obtain ⟨d, ds, hdigit, hd⟩ := h.exists_cons rest
    exact ⟨d, ds, hd, .inr hdigit⟩

/-- What is `Written` for a value begins with no blank and with no mark that ends values. -/
theorem Written.exists_cons {f : Form} (h : Written f cs) (rest : List Char) :
    ∃ c ds, cs ++ rest = c :: ds ∧ isBlank c = false ∧ c ≠ ']' ∧ c ≠ '\x7d' := by
  cases h with
  | num h =>
    obtain ⟨c, ds, hc, hsign⟩ := h.exists_render rest
    refine ⟨c, ds, hc, ?_⟩
    rcases hsign with rfl | hdigit
    · decide
    · obtain ⟨hblank, hbracket, hbrace, -⟩ := not_mark_of_isDigit hdigit
      exact ⟨hblank, hbracket, hbrace⟩
  | _ => exact ⟨_, _, rfl, by decide, by decide, by decide⟩

/-! ### Reading values -/

/-- `readForm` skips blanks in front of a value. -/
theorem readForm_append (h : AreBlanks bs) (n : Nat) (cs : List Char) :
    readForm n (bs ++ cs) = readForm n cs := by
  cases n with
  | zero => rfl
  | succ n => rw [readForm, readForm, skipBlanks_append h]

/-- `readForm` takes a quote for the beginning of a string. -/
theorem readForm_quote (n : Nat) (cs : List Char) :
    readForm (n + 1) ('"' :: cs) = (readPieces n cs).map fun p => (.str p.1, p.2) := by
  rw [readForm, skipBlanks_cons (by decide)]
  simp only
  cases readPieces n cs <;> rfl

/-- `readForm` takes a bracket for the beginning of an array. -/
theorem readForm_bracket (n : Nat) {c : Char} {cs ds : List Char}
    (hskip : skipBlanks cs = c :: ds) :
    readForm (n + 1) ('[' :: cs) = if c = ']' then some (.arr [], ds)
      else (readItems n cs).map fun p => (.arr p.1, p.2) := by
  rw [readForm, skipBlanks_cons (by decide)]
  simp only [hskip]
  split
  next ds' heq =>
    obtain ⟨rfl, rfl⟩ := List.cons.inj heq
    rw [if_pos rfl]
  next hnot =>
    rw [if_neg (fun hc => hnot ds (by rw [hc]))]
    cases readItems n cs <;> rfl

/-- `readForm` takes a brace for the beginning of an object. -/
theorem readForm_brace (n : Nat) {c : Char} {cs ds : List Char} (hskip : skipBlanks cs = c :: ds) :
    readForm (n + 1) ('\x7b' :: cs) = if c = '\x7d' then some (.obj [], ds)
      else (readMembers n cs).map fun p => (.obj p.1, p.2) := by
  rw [readForm, skipBlanks_cons (by decide)]
  simp only [hskip]
  split
  next ds' heq =>
    obtain ⟨rfl, rfl⟩ := List.cons.inj heq
    rw [if_pos rfl]
  next hnot =>
    rw [if_neg (fun hc => hnot ds (by rw [hc]))]
    cases readMembers n cs <;> rfl

/-- `readForm` takes a sign or a digit for the beginning of a number. -/
theorem readForm_number (n : Nat) {c : Char} (hc : c = '-' ∨ c.isDigit = true) (cs : List Char) :
    readForm (n + 1) (c :: cs) = (readNumber (c :: cs)).map fun p => (.num p.1, p.2) := by
  have hmark : isBlank c = false ∧ c ≠ 'n' ∧ c ≠ 't' ∧ c ≠ 'f' ∧ c ≠ '"' ∧ c ≠ '[' ∧
      c ≠ '\x7b' := by
    rcases hc with rfl | hdigit
    · decide
    · obtain ⟨hblank, -, -, hrest⟩ := not_mark_of_isDigit hdigit
      exact ⟨hblank, hrest⟩
  obtain ⟨hblank, hn, ht, hf, hquote, hbracket, hbrace⟩ := hmark
  rw [readForm.eq_def]
  dsimp only
  rw [skipBlanks_cons hblank]
  split
  next heq => exact absurd (List.cons.inj heq).1 hn
  next heq => exact absurd (List.cons.inj heq).1 ht
  next heq => exact absurd (List.cons.inj heq).1 hf
  next heq => exact absurd (List.cons.inj heq).1 hquote
  next heq => exact absurd (List.cons.inj heq).1 hbracket
  next heq => exact absurd (List.cons.inj heq).1 hbrace
  next => cases readNumber (c :: cs) <;> rfl

/-! ### Reading items and members -/

variable {f : Form} {ds es : List Char}

/-- `readItems` ends at a bracket behind an item. -/
theorem readItems_last (hf : readForm n cs = some (f, rest)) (hskip : skipBlanks rest = ']' :: ds) :
    readItems (n + 1) cs = some ([f], ds) := by
  rw [readItems, hf]
  simp only [hskip]

/-- `readItems` goes on at a comma behind an item. -/
theorem readItems_cons {fs : List Form} (hf : readForm n cs = some (f, rest))
    (hskip : skipBlanks rest = ',' :: ds) (hfs : readItems n ds = some (fs, es)) :
    readItems (n + 1) cs = some (f :: fs, es) := by
  rw [readItems, hf]
  simp only [hskip, hfs]

section Member

variable {k : List Piece} {afterQuote afterKey afterColon : List Char}
  (hquote : skipBlanks cs = '"' :: afterQuote) (hk : readPieces n afterQuote = some (k, afterKey))
  (hcolon : skipBlanks afterKey = ':' :: afterColon) (hf : readForm n afterColon = some (f, rest))

include hquote hk hcolon hf

/-- `readMembers` ends at a brace behind a member. -/
theorem readMembers_last (hskip : skipBlanks rest = '\x7d' :: ds) :
    readMembers (n + 1) cs = some ([(k, f)], ds) := by
  rw [readMembers]
  simp only [hquote, hk, hcolon, hf, hskip]

/-- `readMembers` goes on at a comma behind a member. -/
theorem readMembers_cons {ms : List (List Piece × Form)} (hskip : skipBlanks rest = ',' :: ds)
    (hms : readMembers n ds = some (ms, es)) :
    readMembers (n + 1) cs = some ((k, f) :: ms, es) := by
  rw [readMembers]
  simp only [hquote, hk, hcolon, hf, hskip, hms]

end Member

/-- A string takes at least as many characters as it has pieces. -/
theorem length_le_flatMap_render (ps : List Piece) :
    ps.length ≤ (ps.flatMap Piece.render).length := by
  induction ps with
  | nil => exact Nat.le_refl _
  | cons p ps ih =>
    have hp : 1 ≤ p.render.length := by cases p <;> simp [Piece.render]
    rw [List.flatMap_cons, List.length_append, List.length_cons]
    omega

/-- `readPieces` reads a string from what `renderPieces` wrote, with its quotes. -/
theorem readPieces_renderPieces {ps : List Piece} (h : ∀ p ∈ ps, p.IsSound)
    (hn : (renderPieces ps).length ≤ n + 1) (rest : List Char) :
    ∃ afterQuote, renderPieces ps ++ rest = '"' :: afterQuote ∧
      readPieces n afterQuote = some (ps, rest) := by
  have hlength := length_le_flatMap_render ps
  simp only [renderPieces, List.length_cons, List.length_append, List.length_nil] at hn
  refine ⟨ps.flatMap Piece.render ++ '"' :: rest, by simp [renderPieces], ?_⟩
  exact readPieces_append h (by omega) rest

/-- `readForm` reads a value between blanks, up to a mark that ends it. -/
theorem readForm_between {before after : List Char}
    (hread : ∀ rest, Stops rest → readForm n (cs ++ rest) = some (f, rest))
    (hbefore : AreBlanks before) (hafter : AreBlanks after)
    (hc : c.isDigit = false ∧ c ≠ '.' ∧ c ≠ 'e' ∧ c ≠ 'E') (rest : List Char) :
    readForm n (before ++ (cs ++ (after ++ c :: rest))) = some (f, after ++ c :: rest) := by
  rw [readForm_append hbefore]
  exact hread _ (stops_blanks_append hafter (stops_cons hc rest))

/-- The text of items begins, after blanks, with no bracket that ends an array. -/
theorem WrittenItems.skipBlanks_eq {fs : List Form} (h : WrittenItems fs cs) (rest : List Char) :
    ∃ c ds, skipBlanks (cs ++ rest) = c :: ds ∧ c ≠ ']' := by
  cases h with
  | last hbefore h _ | cons hbefore h _ _ =>
    rw [List.append_assoc, List.append_assoc, skipBlanks_append hbefore]
    obtain ⟨c, ds, hc, hblank, hbracket, -⟩ := h.exists_cons _
    exact ⟨c, ds, by rw [hc, skipBlanks_cons hblank], hbracket⟩

/-- The text of members begins, after blanks, with a quote. -/
theorem WrittenMembers.skipBlanks_eq {ms : List (List Piece × Form)} (h : WrittenMembers ms cs)
    (rest : List Char) : ∃ ds, skipBlanks (cs ++ rest) = '"' :: ds := by
  cases h with
  | last hbefore | cons hbefore =>
    rw [List.append_assoc, List.append_assoc, skipBlanks_append hbefore]
    exact ⟨_, skipBlanks_cons (by decide) _⟩

mutual

/-- `readForm` reads a text as the value that it is `Written` for, up to what follows it. -/
theorem Written.read {f : Form} {cs : List Char} {n : Nat} (h : Written f cs)
    (hn : cs.length < n) (rest : List Char) (hrest : Stops rest) :
    readForm n (cs ++ rest) = some (f, rest) := by
  obtain ⟨n, rfl⟩ := Nat.exists_eq_succ_of_ne_zero (Nat.ne_of_gt (Nat.zero_lt_of_lt hn))
  cases h with
  | null =>
    change readForm (n + 1) ('n' :: 'u' :: 'l' :: 'l' :: rest) = _
    rw [readForm, skipBlanks_cons (by decide)]
    simp only
  | isTrue =>
    change readForm (n + 1) ('t' :: 'r' :: 'u' :: 'e' :: rest) = _
    rw [readForm, skipBlanks_cons (by decide)]
    simp only
  | isFalse =>
    change readForm (n + 1) ('f' :: 'a' :: 'l' :: 's' :: 'e' :: rest) = _
    rw [readForm, skipBlanks_cons (by decide)]
    simp only
  | num h =>
    obtain ⟨c, ds, hc, hsign⟩ := h.exists_render rest
    have hread := readNumber_append h hrest
    rw [hc] at hread
    rw [hc, readForm_number n hsign, hread, Option.map_some]
  | str h =>
    obtain ⟨afterQuote, hquote, hread⟩ := readPieces_renderPieces h (Nat.le_of_lt hn) rest
    rw [hquote, readForm_quote, hread, Option.map_some]
  | emptyArr h =>
    have hskip := skipBlanks_append_cons h (c := ']') (by decide) rest
    rw [List.cons_append, List.append_assoc, List.singleton_append, readForm_bracket n hskip,
      if_pos rfl]
  | arr h =>
    obtain ⟨c, ds, hskip, hc⟩ := h.skipBlanks_eq rest
    rw [List.cons_append, readForm_bracket n hskip, if_neg hc, h.read (Nat.lt_of_succ_lt_succ hn),
      Option.map_some]
  | emptyObj h =>
    have hskip := skipBlanks_append_cons h (c := '\x7d') (by decide) rest
    rw [List.cons_append, List.append_assoc, List.singleton_append, readForm_brace n hskip,
      if_pos rfl]
  | obj h =>
    obtain ⟨ds, hskip⟩ := h.skipBlanks_eq rest
    rw [List.cons_append, readForm_brace n hskip, if_neg (by decide),
      h.read (Nat.lt_of_succ_lt_succ hn), Option.map_some]
termination_by cs.length

/-- `readItems` reads items up to the bracket that ends them. -/
theorem WrittenItems.read {fs : List Form} {cs rest : List Char} {n : Nat} (h : WrittenItems fs cs)
    (hn : cs.length < n) : readItems n (cs ++ rest) = some (fs, rest) := by
  obtain ⟨n, rfl⟩ := Nat.exists_eq_succ_of_ne_zero (Nat.ne_of_gt (Nat.zero_lt_of_lt hn))
  cases h with
  | last hbefore h hafter =>
    simp only [List.length_append, List.length_cons] at hn
    simp only [List.append_assoc, List.singleton_append]
    have hread := h.read (n := n) (by omega)
    have hform := readForm_between hread hbefore hafter (c := ']') (by decide)
    exact readItems_last (hform rest) (skipBlanks_append_cons hafter (by decide) rest)
  | cons hbefore h hafter hs =>
    simp only [List.length_append, List.length_cons] at hn
    simp only [List.append_assoc, List.cons_append]
    have hread := h.read (n := n) (by omega)
    have hform := readForm_between hread hbefore hafter (c := ',') (by decide)
    exact readItems_cons (hform _) (skipBlanks_append_cons hafter (by decide) _)
      (hs.read (by omega))
termination_by cs.length

/-- `readMembers` reads members up to the brace that ends them. -/
theorem WrittenMembers.read {ms : List (List Piece × Form)} {cs rest : List Char} {n : Nat}
    (h : WrittenMembers ms cs) (hn : cs.length < n) :
    readMembers n (cs ++ rest) = some (ms, rest) := by
  obtain ⟨n, rfl⟩ := Nat.exists_eq_succ_of_ne_zero (Nat.ne_of_gt (Nat.zero_lt_of_lt hn))
  cases h with
  | last hbefore hk hcolon hgap h hafter =>
    simp only [List.length_append, List.length_cons] at hn
    simp only [List.append_assoc, List.cons_append, List.nil_append]
    have hread := h.read (n := n) (by omega)
    have hform := readForm_between hread hgap hafter (c := '\x7d') (by decide)
    obtain ⟨afterQuote, hquote, hpieces⟩ := readPieces_renderPieces (n := n) hk (by omega) _
    exact readMembers_last (by rw [skipBlanks_append hbefore, hquote, skipBlanks_cons (by decide)])
      hpieces (skipBlanks_append_cons hcolon (by decide) _) (hform rest)
      (skipBlanks_append_cons hafter (by decide) rest)
  | cons hbefore hk hcolon hgap h hafter hs =>
    simp only [List.length_append, List.length_cons] at hn
    simp only [List.append_assoc, List.cons_append]
    have hread := h.read (n := n) (by omega)
    have hform := readForm_between hread hgap hafter (c := ',') (by decide)
    obtain ⟨afterQuote, hquote, hpieces⟩ := readPieces_renderPieces (n := n) hk (by omega) _
    exact readMembers_cons (by rw [skipBlanks_append hbefore, hquote, skipBlanks_cons (by decide)])
      hpieces (skipBlanks_append_cons hcolon (by decide) _) (hform _)
      (skipBlanks_append_cons hafter (by decide) _) (hs.read (by omega))
termination_by cs.length

end

/-- `Form.ofText?` finds the form of a value in a text that is `Written` for it, with blanks
around. -/
theorem Written.ofText? {before after : List Char} (h : Written f cs) (hbefore : AreBlanks before)
    (hafter : AreBlanks after) : Form.ofText? (before ++ (cs ++ after)) = some f := by
  have hlength : cs.length < (before ++ (cs ++ after)).length + 1 := by
    simp only [List.length_append]
    omega
  have hstops : Stops after := List.append_nil after ▸ stops_blanks_append hafter stops_nil
  have hend : skipBlanks after = [] := List.append_nil after ▸ skipBlanks_append hafter []
  unfold Form.ofText?
  rw [readForm_append hbefore, h.read hlength after hstops]
  simp only [hend, if_true]

end TaskScheduler.Json
