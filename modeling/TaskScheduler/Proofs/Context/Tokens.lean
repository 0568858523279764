import TaskScheduler.Context.Basic

/-!
# Cancellation along the tree of tokens

Canceling a token cancels its descendants, at once and for good.  The tree does not store
descendants; it stores parents, and a cancelation is one pass over the tokens in the order in which
they were made.  That pass meets a parent before its children, so `Inherits`, which looks at one
parent and one child, is kept by it, and along a chain of parents it gives what is wanted of
descendants.

`Grows` is what every operation does to a tree: tokens are only added, keep their parents, stay
canceled, and go on to inherit.
-/

namespace TaskScheduler.TokenTree

variable {t t' t'' : TokenTree} {i p : TokenId}

/-- `isCanceled` holds of the canceled tokens of the tree only. -/
theorem isCanceled_iff :
    t.isCanceled i = true ↔ ∃ k, t.tokens[i]? = some k ∧ k.canceled = true := by
  unfold isCanceled
  cases t.tokens[i]? with
  | none => simp
  | some k => simp

/-- A token is canceled if its parent is, provided the parent was made before it. -/
def Inherits (t : TokenTree) : Prop :=
  ∀ (i p : TokenId) (k : Token), t.tokens[i]? = some k → k.parent = some p → p < i →
    t.isCanceled p = true → k.canceled = true

/-- A token comes from another over a chain of parents. -/
inductive Descends (t : TokenTree) (ancestor : TokenId) : TokenId → Prop
  /-- The chain is empty. -/
  | refl : Descends t ancestor ancestor
  /-- The chain goes on to a child. -/
  | child {p i : TokenId} {k : Token} (h : Descends t ancestor p) (hk : t.tokens[i]? = some k)
    (hp : k.parent = some p) (hlt : p < i) : Descends t ancestor i

/-- In a tree that `Inherits` every token that `Descends` from a canceled one is canceled. -/
theorem Descends.isCanceled {ancestor : TokenId} (h : t.Descends ancestor i) (ht : t.Inherits)
    (ha : t.isCanceled ancestor = true) : t.isCanceled i = true := by
  induction h with
  | refl => exact ha
  | @child p i k _ hk hp hlt ih => exact isCanceled_iff.2 ⟨k, hk, ht i p k hk hp hlt ih⟩

/-! ### Growing trees -/

/-- Tokens are added or canceled. -/
structure Grows (t t' : TokenTree) : Prop where
  /-- A token stays, with its parent, and stays canceled. -/
  kept : ∀ (i : TokenId) (k : Token), t.tokens[i]? = some k →
    ∃ k', t'.tokens[i]? = some k' ∧ k'.parent = k.parent ∧ (k.canceled = true → k'.canceled = true)
  /-- Tokens go on to inherit. -/
  inherits : t.Inherits → t'.Inherits

/-- A tree that stays the same `Grows`. -/
@[refl] theorem Grows.rfl : t.Grows t := ⟨fun _ k hk => ⟨k, hk, Eq.refl _, id⟩, id⟩

/-- `Grows` is transitive. -/
theorem Grows.trans (h : t.Grows t') (h' : t'.Grows t'') : t.Grows t'' := by
  refine ⟨fun i k hk => ?_, fun ht => h'.inherits (h.inherits ht)⟩
  obtain ⟨k', hk', hparent, hcanceled⟩ := h.kept i k hk
  obtain ⟨k'', hk'', hparent', hcanceled'⟩ := h'.kept i k' hk'
  exact ⟨k'', hk'', hparent'.trans hparent, fun hc => hcanceled' (hcanceled hc)⟩

/-- In a tree that `Grows` canceled tokens stay canceled. -/
theorem Grows.isCanceled (h : t.Grows t') (hi : t.isCanceled i = true) :
    t'.isCanceled i = true := by
  obtain ⟨k, hk, hcanceled⟩ := isCanceled_iff.1 hi
  obtain ⟨k', hk', -, hcanceled'⟩ := h.kept i k hk
  exact isCanceled_iff.2 ⟨k', hk', hcanceled' hcanceled⟩

/-- In a tree that `Grows` descendants stay descendants. -/
theorem Grows.descends (h : t.Grows t') {ancestor : TokenId} (hd : t.Descends ancestor i) :
    t'.Descends ancestor i := by
  induction hd with
  | refl => exact .refl
  | @child p i k _ hk hp hlt ih =>
    obtain ⟨k', hk', hparent, -⟩ := h.kept i k hk
    exact .child ih hk' (hparent.trans hp) hlt

/-! ### New tokens -/

/-- A tree `Grows` by a new token that is canceled if its parent is. -/
theorem grows_append {k : Token}
    (hk : ∀ p, k.parent = some p → t.isCanceled p = true → k.canceled = true) :
    t.Grows ⟨t.tokens ++ [k]⟩ := by
  have hold : ∀ {j : TokenId}, j < t.tokens.length → (t.tokens ++ [k])[j]? = t.tokens[j]? :=
    fun hj => List.getElem?_append_left hj
  refine ⟨fun i k' hk' => ?_, fun ht i p k' hk' hp hlt hcanceled => ?_⟩
  · have hlt : i < t.tokens.length := (List.getElem?_eq_some_iff.1 hk').1
    exact ⟨k', (hold hlt).trans hk', rfl, id⟩
  · have hi : i < t.tokens.length + 1 := by
      have hlt' := (List.getElem?_eq_some_iff.1 hk').1
      simpa using hlt'
    have hparent : t.isCanceled p = true := by
      obtain ⟨kp, hkp, hcanceled'⟩ := isCanceled_iff.1 hcanceled
      have hkp' : (t.tokens ++ [k])[p]? = some kp := hkp
      rw [hold (Nat.lt_of_lt_of_le hlt (Nat.le_of_lt_succ hi))] at hkp'
      exact isCanceled_iff.2 ⟨kp, hkp', hcanceled'⟩
    have hk'' : (t.tokens ++ [k])[i]? = some k' := hk'
    rcases Nat.lt_succ_iff_lt_or_eq.1 hi with hlt' | rfl
    · rw [hold hlt'] at hk''
      exact ht i p k' hk'' hp hlt hparent
    · obtain rfl : k = k' := by simpa using hk''
      exact hk p hp hparent

/-- A tree `Grows` by `addRoot`. -/
theorem grows_addRoot (t : TokenTree) : t.Grows t.addRoot :=
  grows_append fun _ hp => absurd hp (by simp)

/-- A tree `Grows` by `addChild`. -/
theorem grows_addChild (t : TokenTree) (parent : TokenId) : t.Grows (t.addChild parent) := by
  apply grows_append
  intro p hp hcanceled
  obtain rfl : parent = p := Option.some.inj hp
  exact hcanceled

/-! ### Cancelations -/

/-- What the pass of a cancelation makes of a token behind those that it has passed. -/
def passed (i : TokenId) (done : List Token) (k : Token) : Token :=
  { k with
    canceled := k.canceled || (decide (done.length = i) ||
      match k.parent with
      | none => false
      | some p => (done[p]?.map Token.canceled).getD false) }

/-- `propagate` goes token by token, and makes `passed` of each. -/
theorem propagate_cons (i : TokenId) (done : List Token) (k : Token) (rest : List Token) :
    propagate i done (k :: rest) = propagate i (done ++ [passed i done k]) rest := rfl

/-- What is `passed` is canceled if its parent was found or left canceled. -/
theorem canceled_passed {done : List Token} {k kp : Token} (hp : k.parent = some p)
    (hkp : done[p]? = some kp) (hcanceled : kp.canceled = true) :
    (passed i done k).canceled = true := by
  simp [passed, hp, hkp, hcanceled]

/-- `propagate` leaves the tokens alone that it has left behind. -/
theorem getElem?_propagate_of_lt (i : TokenId) (done rest : List Token) {j : TokenId}
    (hj : j < done.length) : (propagate i done rest)[j]? = done[j]? := by
  induction rest generalizing done with
  | nil => rfl
  | cons k rest ih =>
    have hlt : j < (done ++ [passed i done k]).length := by
      rw [List.length_append]
      exact Nat.lt_add_right _ hj
    rw [propagate_cons, ih _ hlt, List.getElem?_append_left hj]

/-- The next token that `propagate` leaves behind is what is `passed`. -/
theorem getElem?_propagate_length (i : TokenId) (done : List Token) (k : Token)
    (rest : List Token) :
    (propagate i done (k :: rest))[done.length]? = some (passed i done k) := by
  have hlt : done.length < (done ++ [passed i done k]).length := by simp
  rw [propagate_cons, getElem?_propagate_of_lt _ _ _ hlt, List.getElem?_concat_length]

/-- `propagate` keeps parents and cancelations. -/
theorem exists_getElem?_propagate (i : TokenId) (done rest : List Token) {j : Nat} {k : Token}
    (hk : rest[j]? = some k) :
    ∃ k', (propagate i done rest)[done.length + j]? = some k' ∧ k'.parent = k.parent ∧
      (k.canceled = true → k'.canceled = true) := by
  induction rest generalizing done j with
  | nil => exact absurd hk (by simp)
  | cons k₀ rest ih =>
    cases j with
    | zero =>
      obtain rfl : k₀ = k := by simpa using hk
      refine ⟨passed i done k₀, getElem?_propagate_length i done k₀ rest, rfl, fun hcanceled => ?_⟩
      simp [passed, hcanceled]
    | succ j =>
      obtain ⟨k', hk', hkept⟩ := ih (done ++ [passed i done k₀]) (j := j) (by simpa using hk)
      have hplace : (done ++ [passed i done k₀]).length + j = done.length + (j + 1) := by
        simp only [List.length_append, List.length_singleton]
        omega
      rw [hplace] at hk'
      exact ⟨k', hk', hkept⟩

/-- What `propagate` leaves behind is canceled if its parent is. -/
theorem inherits_propagate (i : TokenId) (done rest : List Token) {j p : Nat} {k kp : Token}
    (hk : (propagate i done rest)[done.length + j]? = some k) (hp : k.parent = some p)
    (hlt : p < done.length + j) (hkp : (propagate i done rest)[p]? = some kp)
    (hcanceled : kp.canceled = true) : k.canceled = true := by
  induction rest generalizing done j with
  | nil =>
    have hle : done.length + j < done.length := (List.getElem?_eq_some_iff.1 hk).1
    exact absurd hle (by omega)
  | cons k₀ rest ih =>
    cases j with
    | zero =>
      -- the parent is behind the pass, where the pass has read what it left there
      rw [Nat.add_zero, getElem?_propagate_length] at hk
      obtain rfl := Option.some.inj hk
      have hlt' : p < (done ++ [passed i done k₀]).length := by
        rw [List.length_append]
        exact Nat.lt_add_right _ hlt
      rw [propagate_cons, getElem?_propagate_of_lt _ _ _ hlt', List.getElem?_append_left hlt] at hkp
      exact canceled_passed hp hkp hcanceled
    | succ j =>
      have hplace : (done ++ [passed i done k₀]).length + j = done.length + (j + 1) := by
        simp only [List.length_append, List.length_singleton]
        omega
      refine ih (done ++ [passed i done k₀]) (j := j) ?_ ?_ hkp
      · rw [hplace]
        exact hk
      · rw [hplace]
        exact hlt

/-- A tree `Grows` by `cancel`. -/
theorem grows_cancel (t : TokenTree) (i : TokenId) : t.Grows (t.cancel i) := by
  have hplace : ∀ j : TokenId, ([] : List Token).length + j = j := Nat.zero_add
  refine ⟨fun j k hk => ?_, fun _ j p k hk hp hlt hcanceled => ?_⟩
  · obtain ⟨k', hk', hkept⟩ := exists_getElem?_propagate i [] t.tokens hk
    rw [hplace] at hk'
    exact ⟨k', hk', hkept⟩
  · obtain ⟨kp, hkp, hcanceled'⟩ := isCanceled_iff.1 hcanceled
    refine inherits_propagate i [] t.tokens (j := j) ?_ hp ?_ hkp hcanceled'
    · rw [hplace]
      exact hk
    · rw [hplace]
      exact hlt

/-- `propagate` cancels the token that it is about. -/
theorem exists_canceled_propagate (i : TokenId) (done rest : List Token) {j : Nat} {k : Token}
    (hk : rest[j]? = some k) (hj : done.length + j = i) :
    ∃ k', (propagate i done rest)[i]? = some k' ∧ k'.canceled = true := by
  induction rest generalizing done j with
  | nil => exact absurd hk (by simp)
  | cons k₀ rest ih =>
    cases j with
    | zero =>
      obtain rfl : done.length = i := hj
      refine ⟨passed done.length done k₀, getElem?_propagate_length _ done k₀ rest, ?_⟩
      simp [passed]
    | succ j =>
      refine ih (done ++ [passed i done k₀]) (j := j) (by simpa using hk) ?_
      simp only [List.length_append, List.length_singleton]
      omega

/-- What `propagate` leaves canceled was canceled before, is the token that it is about, or has a
parent that it left canceled. -/
theorem canceled_of_propagate (i : TokenId) (done rest : List Token) {j : Nat} {k' : Token}
    (hk : (propagate i done rest)[done.length + j]? = some k') (hcanceled : k'.canceled = true) :
    ∃ k, rest[j]? = some k ∧ (k.canceled = true ∨ done.length + j = i ∨
      ∃ p kp, k.parent = some p ∧ p < done.length + j ∧
        (propagate i done rest)[p]? = some kp ∧ kp.canceled = true) := by
  induction rest generalizing done j with
  | nil =>
    have hle : done.length + j < done.length := (List.getElem?_eq_some_iff.1 hk).1
    exact absurd hle (by omega)
  | cons k₀ rest ih =>
    cases j with
    | zero =>
      rw [Nat.add_zero, getElem?_propagate_length] at hk
      obtain rfl := Option.some.inj hk
      refine ⟨k₀, rfl, ?_⟩
      have hcases : k₀.canceled = true ∨ done.length = i ∨
          ∃ p kp, k₀.parent = some p ∧ done[p]? = some kp ∧ kp.canceled = true := by
        cases hparent : k₀.parent with
        | none => simpa [passed, hparent] using hcanceled
        | some p =>
          cases hkp : done[p]? with
          | none => simpa [passed, hparent, hkp] using hcanceled
          | some kp => simpa [passed, hparent, hkp] using hcanceled
      refine hcases.imp_right (Or.imp_right ?_)
      rintro ⟨p, kp, hp, hkp, hcanceled'⟩
      have hlt : p < done.length := (List.getElem?_eq_some_iff.1 hkp).1
      have hlt' : p < (done ++ [passed i done k₀]).length := by
        rw [List.length_append]
        exact Nat.lt_add_right _ hlt
      refine ⟨p, kp, hp, hlt, ?_, hcanceled'⟩
      rw [propagate_cons, getElem?_propagate_of_lt _ _ _ hlt', List.getElem?_append_left hlt, hkp]
    | succ j =>
      have hplace : (done ++ [passed i done k₀]).length + j = done.length + (j + 1) := by
        simp only [List.length_append, List.length_singleton]
        omega
      obtain ⟨k, hk₁, hrest⟩ := ih (done ++ [passed i done k₀]) (j := j) (by rw [hplace]; exact hk)
      rw [hplace] at hrest
      exact ⟨k, by simpa using hk₁, hrest⟩

/-- `cancel` cancels its own token. -/
theorem isCanceled_cancel_self (hi : i < t.size) : (t.cancel i).isCanceled i = true := by
  obtain ⟨k, hk⟩ : ∃ k, t.tokens[i]? = some k := ⟨_, List.getElem?_eq_getElem hi⟩
  exact isCanceled_iff.2 (exists_canceled_propagate i [] t.tokens hk (Nat.zero_add i))

/-- `cancel` cancels its token and what `Descends` from it, and no other token. -/
theorem isCanceled_cancel_iff (ht : t.Inherits) (hi : i < t.size) {j : TokenId} :
    (t.cancel i).isCanceled j = true ↔ t.isCanceled j = true ∨ t.Descends i j := by
  have hgrows := t.grows_cancel i
  have hplace : ∀ j : TokenId, ([] : List Token).length + j = j := Nat.zero_add
  constructor
  · -- from a child to its parent, which was made before it
    induction j using Nat.strongRecOn with
    | _ j ih =>
      intro hcanceled
      obtain ⟨k', hk', hcanceled'⟩ := isCanceled_iff.1 hcanceled
      obtain ⟨k, hk, hcases⟩ := canceled_of_propagate i [] t.tokens (j := j)
        (by rw [hplace]; exact hk') hcanceled'
      rw [hplace] at hcases
      rcases hcases with hbefore | rfl | ⟨p, kp, hp, hlt, hkp, hkpc⟩
      · exact .inl (isCanceled_iff.2 ⟨k, hk, hbefore⟩)
      · exact .inr .refl
      · rcases ih p hlt (isCanceled_iff.2 ⟨kp, hkp, hkpc⟩) with hparent | hparent
        · exact .inl (isCanceled_iff.2 ⟨k, hk, ht j p k hk hp hlt hparent⟩)
        · exact .inr (.child hparent hk hp hlt)
  · rintro (hbefore | hdescends)
    · exact hgrows.isCanceled hbefore
    · exact (hgrows.descends hdescends).isCanceled (hgrows.inherits ht) (isCanceled_cancel_self hi)

/-- The parent of a token. -/
def parent? (t : TokenTree) (i : TokenId) : Option TokenId := (t.tokens[i]?).bind Token.parent

/-- What `Descends` from a token was made after it, or is the token. -/
theorem Descends.le {ancestor : TokenId} (h : t.Descends ancestor i) : ancestor ≤ i := by
  induction h with
  | refl => exact Nat.le_refl _
  | child _ _ _ hlt ih => exact Nat.le_trans ih (Nat.le_of_lt hlt)

/-- What `Descends` from a token is the token, or its parent does. -/
theorem Descends.eq_or_parent {ancestor : TokenId} (h : t.Descends ancestor i) :
    i = ancestor ∨ ∃ p, t.parent? i = some p ∧ p < i ∧ t.Descends ancestor p := by
  cases h with
  | refl => exact .inl rfl
  | @child p _ k hp hk hparent hlt =>
    refine .inr ⟨p, ?_, hlt, hp⟩
    rw [parent?, hk]
    exact hparent

/-- What `Descends` from a token of the tree is a token of the tree. -/
theorem Descends.lt_size {ancestor : TokenId} (h : t.Descends ancestor i)
    (ha : ancestor < t.size) : i < t.size := by
  cases h with
  | refl => exact ha
  | child _ hk _ _ => exact (List.getElem?_eq_some_iff.1 hk).1

/-- Of two tokens from which a third one `Descends`, the one descends from the other. -/
theorem Descends.total {a b : TokenId} (ha : t.Descends a i) (hb : t.Descends b i) :
    t.Descends a b ∨ t.Descends b a := by
  induction ha with
  | refl => exact .inr hb
  | @child p i k hp hk hparent hlt ih =>
    rcases hb.eq_or_parent with rfl | ⟨q, hq, -, hbq⟩
    · exact .inl (.child hp hk hparent hlt)
    · rw [parent?, hk] at hq
      obtain rfl : p = q := Option.some.inj (hparent.symm.trans hq)
      exact ih hbq

/-- `cancel` leaves a token alone that does not descend from its own. -/
theorem isCanceled_cancel_of_not_descends (ht : t.Inherits) {j : TokenId} (hi : i < t.size)
    (hj : ¬ t.Descends i j) : (t.cancel i).isCanceled j = t.isCanceled j := by
  rw [Bool.eq_iff_iff, isCanceled_cancel_iff ht hi]
  exact or_iff_left hj

/-- In a tree that `Grows` a token keeps its parent. -/
theorem Grows.parent? (h : t.Grows t') (hi : i < t.size) : t'.parent? i = t.parent? i := by
  obtain ⟨k, hk⟩ : ∃ k, t.tokens[i]? = some k := ⟨_, List.getElem?_eq_getElem hi⟩
  obtain ⟨k', hk', hparent, -⟩ := h.kept i k hk
  rw [TokenTree.parent?, TokenTree.parent?, hk, hk']
  exact hparent

/-- A token of the tree stays one. -/
theorem Grows.lt_size (h : t.Grows t') (hi : i < t.size) : i < t'.size := by
  obtain ⟨k, hk⟩ : ∃ k, t.tokens[i]? = some k := ⟨_, List.getElem?_eq_getElem hi⟩
  obtain ⟨k', hk', -, -⟩ := h.kept i k hk
  exact (List.getElem?_eq_some_iff.1 hk').1

end TokenTree

/-! ### The tokens of a store -/

namespace ContextStore

variable (s : ContextStore)

/-- `err` gives no reason while the deadline is ahead and the token is not canceled. -/
theorem err_eq_none_iff {c : Context} :
    s.err c = none ↔ (∀ d, c.deadline = some d → s.now < d) ∧ s.isCanceled c.token = false := by
  unfold err
  cases hd : c.deadline with
  | none => simp
  | some d =>
    by_cases hpassed : d ≤ s.now
    · simp [hpassed, Nat.not_lt_of_le hpassed]
    · simp [hpassed, Nat.lt_of_not_le hpassed]

/-- `fireDue` cancels the token of the first timer that is due. -/
theorem tree_fireDue (kept timers : List Timer) :
    (s.fireDue kept timers).tree =
      match timers.find? fun timer => timer.due ≤ s.now with
      | some timer => s.tree.cancel timer.token
      | none => s.tree := by
  induction timers generalizing kept with
  | nil => rfl
  | cons timer rest ih =>
    rw [fireDue, List.find?_cons]
    split
    next hdue =>
      rw [decide_eq_true hdue]
      rfl
    next hdue =>
      rw [decide_eq_false hdue]
      exact ih _

/-- The tree `Grows` by `fireDue`. -/
theorem grows_fireDue (kept timers : List Timer) :
    s.tree.Grows (s.fireDue kept timers).tree := by
  rw [tree_fireDue]
  split
  next timer _ => exact s.tree.grows_cancel timer.token
  next => exact .rfl

/-- `childOf` gives a context with a new token under that of the parent. -/
theorem tree_childOf (parent : TokenId) (timeout : Option Duration) :
    (s.childOf parent timeout).1.token = s.tree.size ∧
      (s.childOf parent timeout).2.tree = s.tree.addChild parent := by
  unfold childOf
  dsimp only
  split <;> exact ⟨rfl, rfl⟩

/-- The tree `Grows` by `childOf`. -/
theorem grows_childOf (parent : TokenId) (timeout : Option Duration) :
    s.tree.Grows (s.childOf parent timeout).2.tree := by
  rw [(s.tree_childOf parent timeout).2]
  exact s.tree.grows_addChild parent

/-- The token of a context from `childOf` descends from that of the parent, if this exists. -/
theorem descends_childOf {parent : TokenId} (hparent : parent < s.tree.size)
    (timeout : Option Duration) :
    (s.childOf parent timeout).2.tree.Descends parent (s.childOf parent timeout).1.token := by
  obtain ⟨htoken, htree⟩ := s.tree_childOf parent timeout
  rw [htoken, htree]
  have hnew : (s.tree.addChild parent).tokens[s.tree.size]? =
      some ⟨some parent, s.tree.isCanceled parent⟩ := by
    simp [TokenTree.addChild, TokenTree.size]
  exact .child .refl hnew rfl hparent

end ContextStore

end TaskScheduler
