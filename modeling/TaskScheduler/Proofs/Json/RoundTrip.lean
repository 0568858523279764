import TaskScheduler.Proofs.Json.Grammar
import TaskScheduler.Proofs.Number.Literal
import TaskScheduler.Proofs.Number.Shortest

/-!
# Values read back

A value without floating-point numbers, printed in either style, is read back as itself, unless it
is nested too deeply: then it is not read at all.  The printer writes texts of the grammar, so the
reader finds the form of the value, and the form has the value, part by part.  The form of a value
with floating-point numbers is found as well.
-/

namespace TaskScheduler.Json

/-! ### What the printer writes -/

mutual

/-- The parts of a form are what the grammar asks for. -/
def Form.IsSound : Form → Prop
  | .num x => x.IsSound
  | .str ps => ∀ p ∈ ps, p.IsSound
  | .arr fs => Form.AreSound fs
  | .obj ms => Form.MembersAreSound ms
  | _ => True

/-- Every form of a list is sound. -/
def Form.AreSound : List Form → Prop
  | [] => True
  | f :: rest => f.IsSound ∧ Form.AreSound rest

/-- Every key and every form of a list of members is sound. -/
def Form.MembersAreSound : List (List Piece × Form) → Prop
  | [] => True
  | m :: rest => (∀ p ∈ m.1, p.IsSound) ∧ m.2.IsSound ∧ Form.MembersAreSound rest

end

mutual

/-- `Form.render`, the style without blanks, writes the form. -/
theorem Form.written_render (f : Form) (h : f.IsSound) : Written f f.render := by
  match f with
  | .null => exact .null
  | .bool true => exact .isTrue
  | .bool false => exact .isFalse
  | .num x => exact .num h
  | .str ps => exact .str h
  | .arr [] => exact .emptyArr areBlanks_nil
  | .arr (f :: fs) => exact .arr (Form.writtenItems_render (f.written_render h.1) fs h.2)
  | .obj [] => exact .emptyObj areBlanks_nil
  | .obj ((k, f) :: ms) =>
    exact .obj (Form.writtenMembers_render h.1 (f.written_render h.2.1) ms h.2.2)

/-- `Form.renderItems` writes the items behind an item. -/
theorem Form.writtenItems_render {f : Form} {cs : List Char} (h : Written f cs) (fs : List Form)
    (hs : Form.AreSound fs) : WrittenItems (f :: fs) (cs ++ Form.renderItems fs) := by
  match fs with
  | [] => exact .last areBlanks_nil h areBlanks_nil
  | g :: gs =>
    have hrest := Form.writtenItems_render (g.written_render hs.1) gs hs.2
    exact .cons areBlanks_nil h areBlanks_nil hrest

/-- `Form.renderMembers` writes the members behind a member. -/
theorem Form.writtenMembers_render {k : List Piece} {f : Form} {cs : List Char}
    (hk : ∀ p ∈ k, p.IsSound) (h : Written f cs) (ms : List (List Piece × Form))
    (hs : Form.MembersAreSound ms) :
    WrittenMembers ((k, f) :: ms) (renderPieces k ++ ':' :: (cs ++ Form.renderMembers ms)) := by
  match ms with
  | [] => exact .last areBlanks_nil hk areBlanks_nil areBlanks_nil h areBlanks_nil
  | (l, g) :: ms =>
    have hrest := Form.writtenMembers_render hs.1 (g.written_render hs.2.1) ms hs.2.2
    exact .cons areBlanks_nil hk areBlanks_nil areBlanks_nil h areBlanks_nil hrest

end

/-- A `newLine` with its indent consists of blanks. -/
theorem areBlanks_newLine (level : Nat) : AreBlanks (newLine level) := by
  intro c hc
  rcases List.mem_cons.1 hc with rfl | hc
  · decide
  · rw [List.eq_of_mem_replicate hc]
    decide

/-- A single blank is blank. -/
theorem areBlanks_space : AreBlanks [' '] := by
  intro c hc
  rw [List.mem_singleton.1 hc]
  decide

mutual

/-- `Form.pretty`, the style on several lines, writes the form. -/
theorem Form.written_pretty (level : Nat) (f : Form) (h : f.IsSound) :
    Written f (f.pretty level) := by
  match f with
  | .null => exact .null
  | .bool true => exact .isTrue
  | .bool false => exact .isFalse
  | .num x => exact .num h
  | .str ps => exact .str h
  | .arr [] => exact .emptyArr areBlanks_nil
  | .arr (f :: fs) =>
    exact .arr (Form.writtenItems_pretty level (f.written_pretty (level + 1) h.1) fs h.2)
  | .obj [] => exact .emptyObj areBlanks_nil
  | .obj ((k, f) :: ms) =>
    exact .obj (Form.writtenMembers_pretty level h.1 (f.written_pretty (level + 1) h.2.1) ms h.2.2)

/-- `Form.prettyItems` writes the items behind an item. -/
theorem Form.writtenItems_pretty (level : Nat) {f : Form} {cs : List Char} (h : Written f cs)
    (fs : List Form) (hs : Form.AreSound fs) :
    WrittenItems (f :: fs) (newLine (level + 1) ++ (cs ++ Form.prettyItems level fs)) := by
  match fs with
  | [] => exact .last (areBlanks_newLine _) h (areBlanks_newLine _)
  | g :: gs =>
    have hrest := Form.writtenItems_pretty level (g.written_pretty (level + 1) hs.1) gs hs.2
    exact .cons (areBlanks_newLine _) h areBlanks_nil hrest

/-- `Form.prettyMembers` writes the members behind a member. -/
theorem Form.writtenMembers_pretty (level : Nat) {k : List Piece} {f : Form} {cs : List Char}
    (hk : ∀ p ∈ k, p.IsSound) (h : Written f cs) (ms : List (List Piece × Form))
    (hs : Form.MembersAreSound ms) :
    WrittenMembers ((k, f) :: ms) (newLine (level + 1) ++
      (renderPieces k ++ ':' :: ' ' :: (cs ++ Form.prettyMembers level ms))) := by
  match ms with
  | [] =>
    exact .last (areBlanks_newLine _) hk areBlanks_nil areBlanks_space h (areBlanks_newLine _)
  | (l, g) :: ms =>
    have hrest := Form.writtenMembers_pretty level hs.1 (g.written_pretty (level + 1) hs.2.1) ms
      hs.2.2
    exact .cons (areBlanks_newLine _) hk areBlanks_nil areBlanks_space h areBlanks_nil hrest

end

/-- `Form.ofText?` finds a form again in its text without blanks. -/
theorem Form.ofText?_render {f : Form} (h : f.IsSound) : Form.ofText? f.render = some f := by
  have hread := (f.written_render h).ofText? areBlanks_nil areBlanks_nil
  rwa [List.nil_append, List.append_nil] at hread

/-- `Form.ofText?` finds a form again in its text on several lines. -/
theorem Form.ofText?_pretty {f : Form} (h : f.IsSound) (level : Nat) :
    Form.ofText? (f.pretty level) = some f := by
  have hread := (f.written_pretty level h).ofText? areBlanks_nil areBlanks_nil
  rwa [List.nil_append, List.append_nil] at hread

/-! ### Texts -/

/-- `Piece.ofChar` writes a character as the grammar asks for. -/
theorem Piece.ofChar_isSound (c : Char) : (Piece.ofChar c).IsSound := by
  unfold Piece.ofChar
  split
  next h => rcases h with rfl | rfl <;> rfl
  next h =>
    split
    next hcontrol =>
      split
      next hletter => exact hletter
      next => exact Nat.lt_trans hcontrol (by decide)
    next hcontrol => exact ⟨fun hc => h (.inl hc), fun hc => h (.inr hc), hcontrol⟩

/-- `piecesOf` writes the characters of a text as the grammar asks for. -/
theorem piecesOf_isSound (s : String) : ∀ p ∈ piecesOf s, p.IsSound := by
  intro p hp
  obtain ⟨c, -, rfl⟩ := List.mem_map.1 hp
  exact Piece.ofChar_isSound c

/-- A control character is half of no surrogate pair. -/
theorem not_surrogate_of_lt {n : Nat} (h : n < 0x20) :
    isHighSurrogate n = false ∧ isLowSurrogate n = false := by
  simp only [isHighSurrogate, isLowSurrogate, Bool.and_eq_false_iff, decide_eq_false_iff_not]
  omega

/-- `charsOf?` takes a unit outside the surrogates for a character, whatever follows it. -/
theorem charsOf?_unit {n : Nat} (hhigh : isHighSurrogate n = false)
    (hlow : isLowSurrogate n = false) (ps : List Piece) :
    charsOf? (.unit n :: ps) = (charsOf? ps).map (Char.ofNat n :: ·) := by
  cases ps with
  | nil => simp [charsOf?, hhigh, hlow]
  | cons p ps => cases p <;> simp [charsOf?, hhigh, hlow]

/-- `charsOf?` reads characters back from their pieces. -/
theorem charsOf?_map_ofChar (cs : List Char) : charsOf? (cs.map Piece.ofChar) = some cs := by
  induction cs with
  | nil => rfl
  | cons c cs ih =>
    rw [List.map_cons, Piece.ofChar.eq_def c]
    split
    next => rw [charsOf?, ih, Option.map_some]
    next =>
      split
      next hcontrol =>
        split
        next => rw [charsOf?, ih, Option.map_some]
        next =>
          obtain ⟨hhigh, hlow⟩ := not_surrogate_of_lt hcontrol
          rw [charsOf?_unit hhigh hlow, ih, Option.map_some, Char.ofNat_toNat]
      next => rw [charsOf?, ih, Option.map_some]

/-- `textOf?` reads a text back from its pieces. -/
theorem textOf?_piecesOf (s : String) : textOf? (piecesOf s) = some s := by
  rw [textOf?, piecesOf, charsOf?_map_ofChar, Option.map_some, String.ofList_toList]

/-! ### Numbers -/

/-- Decimal digits are digits. -/
theorem areDigits_digitChars (n : Nat) : AreDigits (Decimal.digitChars n) := by
  intro c hc
  obtain ⟨d, hd, rfl⟩ := Decimal.exists_of_mem_digits hc
  exact (Decimal.digitChar_facts d hd).2.1

/-- `NumberForm.ofInt` writes a whole number as the grammar asks for. -/
theorem NumberForm.ofInt_isSound (i : Int) : (NumberForm.ofInt i).IsSound where
  whole_ne := Nat.toDigits_ne_nil
  whole := areDigits_digitChars i.natAbs
  zero h := by
    have hzero : i.natAbs = 0 := Decimal.eq_zero_of_head? h
    simp [NumberForm.ofInt, Decimal.digitChars, hzero]
  fraction := List.forall_mem_nil _
  exponent e he := by cases he

/-- Zeros are digits. -/
theorem areDigits_zeros (n : Nat) : AreDigits (List.replicate n '0') := by
  intro c hc
  rw [List.eq_of_mem_replicate hc]
  rfl

/-- Digits in a row are digits. -/
theorem AreDigits.append {ds es : List Char} (hds : AreDigits ds) (hes : AreDigits es) :
    AreDigits (ds ++ es) :=
  fun c hc => (List.mem_append.1 hc).elim (hds c) (hes c)

/-- `Decimal.digitChars` gives every number digits, and those of a positive one do not begin with a
zero. -/
theorem head?_digitChars {n : Nat} (h : n ≠ 0) :
    ∃ c cs, Decimal.digitChars n = c :: cs ∧ c ≠ '0' := by
  obtain ⟨c, cs, hcons⟩ : ∃ c cs, Decimal.digitChars n = c :: cs :=
    List.exists_cons_of_ne_nil Nat.toDigits_ne_nil
  refine ⟨c, cs, hcons, ?_⟩
  rintro rfl
  exact h (Decimal.eq_zero_of_head? (congrArg List.head? hcons))

/-- The digits around the point of `Decimal.positional`: there are some before it, and a zero in
front stands alone. -/
theorem positional_isSound {d : Decimal} (h : d.digits ≠ 0) :
    AreDigits d.positional.1 ∧ AreDigits d.positional.2 ∧ d.positional.1 ≠ [] ∧
      (d.positional.1.head? = some '0' → d.positional.1 = ['0']) := by
  have hdigits := areDigits_digitChars d.digits
  obtain ⟨c, cs, hcons, hc⟩ := head?_digitChars h
  have hfront : ∀ {ds : List Char}, ds.head? = some c →
      ds ≠ [] ∧ (ds.head? = some '0' → ds = ['0']) := by
    intro ds hhead
    constructor
    · rintro rfl
      cases hhead
    · exact fun hzero => absurd (Option.some.inj (hhead.symm.trans hzero)) hc
  unfold Decimal.positional
  dsimp only
  split
  · exact ⟨hdigits.append (areDigits_zeros _), List.forall_mem_nil _, hfront (by simp [hcons])⟩
  · split
    next hpoint =>
      -- the point stands behind the first digit, which is therefore not cut off
      have hkept : ((Decimal.digitChars d.digits).take
          ((Decimal.digitChars d.digits).length - (-d.exponent).toNat)).head? = some c := by
        rw [List.head?_take, if_neg (by omega), hcons, List.head?_cons]
      exact ⟨fun c hc => hdigits c (List.mem_of_mem_take hc),
        fun c hc => hdigits c (List.mem_of_mem_drop hc), hfront hkept⟩
    next =>
      exact ⟨areDigits_zeros 1, (areDigits_zeros _).append hdigits, List.cons_ne_nil _ _,
        fun _ => rfl⟩

/-- `NumberForm.ofFloat` writes a floating-point number as the grammar asks for. -/
theorem NumberForm.ofFloat_isSound (x : Binary64) : (NumberForm.ofFloat x).IsSound := by
  unfold NumberForm.ofFloat
  split
  · exact ⟨List.cons_ne_nil _ _, areDigits_zeros 1, fun _ => rfl, areDigits_zeros 1, by simp⟩
  next hmagnitude =>
    have hne := Decimal.shortest_digits_ne_zero hmagnitude
    have hdigits := areDigits_digitChars (Decimal.shortest x.magnitude).digits
    obtain ⟨hwhole, hpart, hsome, hzero⟩ := positional_isSound hne
    dsimp only
    split
    · refine ⟨hsome, hwhole, hzero, ?_, by simp⟩
      dsimp only
      split
      · exact areDigits_zeros 1
      · exact hpart
    · obtain ⟨c, cs, hcons, hc⟩ := head?_digitChars hne
      refine ⟨by simp [hcons], fun c hc => hdigits c (List.mem_of_mem_take hc), ?_,
        fun c hc => hdigits c (List.mem_of_mem_drop hc), ?_⟩
      · dsimp only
        rw [hcons, List.take_succ_cons, List.head?_cons, Option.some.injEq]
        exact fun hzero => absurd hzero hc
      · rintro e he
        obtain rfl := Option.some.inj he
        exact ⟨Nat.toDigits_ne_nil, areDigits_digitChars _⟩

/-- More digits make no smaller number. -/
theorem le_foldl_digits (ds : List Char) (n : Nat) :
    n ≤ ds.foldl (fun n c => 10 * n + digitValue c) n := by
  induction ds generalizing n with
  | nil => exact Nat.le_refl n
  | cons c ds ih =>
    have hnext := ih (10 * n + digitValue c)
    rw [List.foldl_cons]
    omega

/-- `accumulate` reads the digits of a number that fits to the end. -/
theorem accumulate_eq {ds : List Char} {n : Nat}
    (h : ds.foldl (fun n c => 10 * n + digitValue c) n < 2 ^ 64) :
    accumulate n ds = (ds.foldl (fun n c => 10 * n + digitValue c) n, []) := by
  induction ds generalizing n with
  | nil => rfl
  | cons c ds ih =>
    have hnext := le_foldl_digits ds (10 * n + digitValue c)
    have hfits : n * 10 + digitValue c < 2 ^ 64 := by
      rw [List.foldl_cons] at h
      omega
    rw [accumulate, if_pos hfits, Nat.mul_comm n 10, List.foldl_cons]
    exact ih h

/-- `accumulate` reads a number that fits from its digits. -/
theorem accumulate_digitChars {n : Nat} (h : n < 2 ^ 64) :
    accumulate 0 (Decimal.digitChars n) = (n, []) := by
  have hvalue : (Decimal.digitChars n).foldl (fun n c => 10 * n + digitValue c) 0 = n :=
    Decimal.foldl_digits n
  rw [accumulate_eq (by rwa [hvalue]), hvalue]

/-- `NumberForm.value?` reads a number that is kept exactly. -/
theorem NumberForm.value?_ofInt (i : Integer) :
    (NumberForm.ofInt i.val).value? = some (.int i) := by
  have hlower := i.lower
  have hupper := i.upper
  have hread : accumulate 0 (NumberForm.ofInt i.val).whole = (i.val.natAbs, []) :=
    accumulate_digitChars (by omega)
  have hplain : (NumberForm.ofInt i.val).fraction = [] ∧ (NumberForm.ofInt i.val).exponent = none :=
    ⟨rfl, rfl⟩
  unfold NumberForm.value?
  rw [hread]
  dsimp only
  rw [if_pos ⟨hplain.1, hplain.2, rfl⟩]
  split
  next hnegative =>
    have hneg : i.val < 0 := of_decide_eq_true hnegative
    rw [if_neg (by omega), show (-(i.val.natAbs : Int)) = i.val by omega, Integer.ofInt?_val,
      Option.map_some]
  next hnegative =>
    have hnonneg : ¬ i.val < 0 := fun h => hnegative (decide_eq_true h)
    rw [show (i.val.natAbs : Int) = i.val by omega, Integer.ofInt?_val, Option.map_some]

/-! ### Objects -/

/-- `setMember` puts a member whose key is the greatest at the end. -/
theorem setMember_append {k : String} {ms : List (String × Json)} (h : ∀ m ∈ ms, m.1 < k)
    (v : Json) : setMember k v ms = ms ++ [(k, v)] := by
  induction ms with
  | nil => rfl
  | cons m ms ih =>
    obtain ⟨hm, hms⟩ := List.forall_mem_cons.1 h
    have hne : m.1 ≠ k := fun heq => String.lt_irrefl k (heq ▸ hm)
    rw [setMember, if_neg (String.lt_asymm hm), if_neg hne, ih hms, List.cons_append]

/-- Members in order are put one behind the other by `setMember`. -/
theorem foldl_setMember (ms before : List (String × Json))
    (h : Increasing (ms.map Prod.fst)) (hbefore : ∀ m ∈ before, ∀ m' ∈ ms, m.1 < m'.1) :
    ms.foldl (fun ms m => setMember m.1 m.2 ms) before = before ++ ms := by
  induction ms generalizing before with
  | nil => rw [List.foldl_nil, List.append_nil]
  | cons m ms ih =>
    obtain ⟨hm, hms⟩ := h
    rw [List.foldl_cons, setMember_append (fun m' hm' => hbefore m' hm' m List.mem_cons_self),
      ih _ hms, List.append_assoc, List.singleton_append]
    intro m' hm' m'' hm''
    rcases List.mem_append.1 hm' with hold | hnew
    · exact hbefore m' hold m'' (List.mem_cons_of_mem _ hm'')
    · rw [List.mem_singleton.1 hnew]
      exact hm _ (List.mem_map_of_mem hm'')

/-- `ofMembers` of members in order is the object that has them. -/
theorem ofMembers_eq {ms : List (String × Json)} (h : Increasing (ms.map Prod.fst)) :
    ofMembers ms = .obj ms := by
  rw [ofMembers, foldl_setMember ms [] h (List.forall_mem_nil _), List.nil_append]

/-! ### Values -/

mutual

/-- The `form` of every value is sound. -/
theorem form_isSound (v : Json) : v.form.IsSound := by
  match v with
  | .null | .bool _ => trivial
  | .int i => exact NumberForm.ofInt_isSound i.val
  | .float x => exact NumberForm.ofFloat_isSound x
  | .str s => exact piecesOf_isSound s
  | .arr vs => exact forms_areSound vs
  | .obj ms => exact memberForms_areSound ms

/-- The `forms` of values are sound. -/
theorem forms_areSound (vs : List Json) : Form.AreSound (forms vs) := by
  match vs with
  | [] => trivial
  | v :: vs => exact ⟨form_isSound v, forms_areSound vs⟩

/-- The `memberForms` of members are sound. -/
theorem memberForms_areSound (ms : List (String × Json)) :
    Form.MembersAreSound (memberForms ms) := by
  match ms with
  | [] => trivial
  | (k, v) :: ms => exact ⟨piecesOf_isSound k, form_isSound v, memberForms_areSound ms⟩

end

/-- What is inside an array or an object has one level less. -/
theorem ite_eq_zero_map {α : Type} (d n : Nat) (x : α) (g : α → Json) :
    (if d = 0 then none else (if n ≤ d - 1 then some x else none).map g) =
      if n + 1 ≤ d then some (g x) else none := by
  cases d with
  | zero => rfl
  | succ d =>
    rw [if_neg (Nat.succ_ne_zero d), Nat.add_sub_cancel]
    by_cases h : n ≤ d
    · rw [if_pos h, if_pos (Nat.succ_le_succ h), Option.map_some]
    · rw [if_neg h, if_neg (fun hle => h (Nat.le_of_succ_le_succ hle)), Option.map_none]

mutual

/-- `Form.value?` reads a value back from its `form` exactly if it is not nested too deeply. -/
theorem value?_form (d : Nat) (v : Json) (hf : v.FloatFree) (hc : v.Canonical) :
    v.form.value? d = if v.depth ≤ d then some v else none := by
  match v with
  | .null | .bool _ => exact (if_pos (Nat.zero_le d)).symm
  | .int i =>
    rw [form, Form.value?, NumberForm.value?_ofInt]
    exact (if_pos (Nat.zero_le d)).symm
  | .str s =>
    rw [form, Form.value?, textOf?_piecesOf]
    exact (if_pos (Nat.zero_le d)).symm
  | .arr vs => rw [form, Form.value?, values?_forms (d - 1) vs hf hc, ite_eq_zero_map, depth]
  | .obj ms =>
    rw [form, Form.value?, memberValues?_memberForms (d - 1) ms hf hc.2, ite_eq_zero_map, depth,
      ofMembers_eq hc.1]

/-- `Form.values?` reads values back from their `forms` exactly if none is nested too deeply. -/
theorem values?_forms (d : Nat) (vs : List Json) (hf : FloatFreeItems vs)
    (hc : CanonicalItems vs) :
    Form.values? d (forms vs) = if depthItems vs ≤ d then some vs else none := by
  match vs with
  | [] => exact (if_pos (Nat.zero_le d)).symm
  | v :: vs =>
    rw [forms, Form.values?, value?_form d v hf.1 hc.1, values?_forms d vs hf.2 hc.2, depthItems]
    simp only [Nat.max_le]
    by_cases hv : v.depth ≤ d <;> by_cases hvs : depthItems vs ≤ d <;> simp [hv, hvs]

/-- `Form.memberValues?` reads members back from their `memberForms` exactly if none is nested too
deeply. -/
theorem memberValues?_memberForms (d : Nat) (ms : List (String × Json)) (hf : FloatFreeMembers ms)
    (hc : CanonicalMembers ms) :
    Form.memberValues? d (memberForms ms) = if depthMembers ms ≤ d then some ms else none := by
  match ms with
  | [] => exact (if_pos (Nat.zero_le d)).symm
  | (k, v) :: ms =>
    rw [memberForms, Form.memberValues?, textOf?_piecesOf, value?_form d v hf.1 hc.1,
      memberValues?_memberForms d ms hf.2 hc.2, depthMembers]
    simp only [Nat.max_le]
    by_cases hv : v.depth ≤ d <;> by_cases hms : depthMembers ms ≤ d <;> simp [hv, hms]

end

/-! ### Printing and reading -/

/-- `parse?` reads a value back from its `compact` text exactly if it is nested at most `maxDepth`
levels. -/
theorem parse?_compact (v : Json) (hf : v.FloatFree) (hc : v.Canonical) :
    parse? v.compact = if v.depth ≤ maxDepth then some v else none := by
  rw [parse?, compact, String.toList_ofList, Form.ofText?_render (form_isSound v)]
  exact value?_form maxDepth v hf hc

end TaskScheduler.Json
