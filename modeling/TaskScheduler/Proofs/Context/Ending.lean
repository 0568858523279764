import TaskScheduler.Proofs.Context.Pedigree

/-!
# A canceled context has a reason

What the tokens and timers of a run say about its contexts is compared with the pedigree of the same
history.  `Reflects` is kept by every step: a canceled token has a reason in the pedigree, an
explicit cancelation has canceled its token, and a deadline has a timer that is still pending or has
a canceled token.  When no timer is late, this leaves only one answer to whether a context has
ended.
-/

namespace TaskScheduler

open Pedigree

/-! ### Timers that fire -/

/-- `fireDue` finds no timer among the given ones that is due and does nothing, or it fires the
first one that is due. -/
theorem ContextStore.fireDue_cases (s : ContextStore) (kept rest : List Timer) :
    s.fireDue kept rest = { s with timers := kept ++ rest } ∨
    ∃ before t rest', rest = before ++ t :: rest' ∧ t.due ≤ s.now ∧
      s.fireDue kept rest = { s.cancel t.token with timers := kept ++ before ++ rest' } := by
  induction rest generalizing kept with
  | nil => exact .inl (by rw [fireDue, List.append_nil])
  | cons t rest ih =>
    rw [fireDue]
    split
    next hdue => exact .inr ⟨[], t, rest, rfl, hdue, by rw [List.append_nil]⟩
    next =>
      rcases ih (kept ++ [t]) with h | ⟨before, t', rest', rfl, hdue, h⟩
      · exact .inl (by rw [h, List.append_assoc, List.singleton_append])
      · refine .inr ⟨t :: before, t', rest', rfl, hdue, ?_⟩
        rw [h, List.append_assoc kept, List.singleton_append]

/-- `childOf` gives a context with a new token and its deadline, and sets its timer. -/
theorem ContextStore.childOf_eq (s : ContextStore) (parent : TokenId) (timeout : Option Duration)
    {deadline : Option Instant}
    (h : (timeout.filter fun t => !t.isZero).map (fun t => s.now + t.nanos) = deadline) :
    s.childOf parent timeout = (⟨s.tree.size, deadline⟩, ⟨s.now, s.tree.addChild parent,
      s.timers ++ (deadline.map fun d => ⟨d, s.tree.size⟩).toList⟩) := by
  subst h
  unfold childOf
  cases timeout.filter fun t => !t.isZero with
  | none => exact congrArg (fun l => (_, ContextStore.mk s.now _ l)) (List.append_nil _).symm
  | some t => rfl

namespace TokenTree

variable {t : TokenTree}

/-- A new token leaves `isCanceled` of the others as it is. -/
theorem isCanceled_append (k : Token) {i : TokenId} (hi : i < t.size) :
    TokenTree.isCanceled ⟨t.tokens ++ [k]⟩ i = t.isCanceled i := by
  unfold isCanceled
  rw [List.getElem?_append_left hi]

/-- A new token is canceled as it was made. -/
theorem isCanceled_append_size (k : Token) :
    TokenTree.isCanceled ⟨t.tokens ++ [k]⟩ t.size = k.canceled := by
  unfold isCanceled size
  rw [List.getElem?_concat_length]

/-- A new token has the parent that it was made with. -/
theorem parent?_append_size (k : Token) :
    TokenTree.parent? ⟨t.tokens ++ [k]⟩ t.size = k.parent := by
  unfold parent? size
  rw [List.getElem?_concat_length]
  rfl

/-- The next token is a token once another one is added. -/
theorem size_lt_size_append (k : Token) : t.size < TokenTree.size ⟨t.tokens ++ [k]⟩ := by
  simp [size]

end TokenTree

/-! ### Runs and pedigrees -/

namespace ContextRun

/-- The tokens and timers of a run are in accord with a pedigree. -/
structure Reflects (r : ContextRun) (l : Pedigree) : Prop where
  /-- The clocks agree. -/
  now : r.store.now = l.now
  /-- The contexts are those of the pedigree. -/
  lineage : Lineage r.store.tree r.contexts l.births
  /-- Children of canceled tokens are canceled. -/
  inherits : r.store.tree.Inherits
  /-- A canceled context has a reason. -/
  sound : ∀ {i : Nat} {c : Context}, r.contexts[i]? = some c →
    r.store.isCanceled c.token = true → l.IsEnded i
  /-- A cancelation takes effect. -/
  explicit : ∀ x ∈ l.canceled, ∃ c, r.contexts[x]? = some c ∧ r.store.isCanceled c.token = true
  /-- A deadline has a timer, until its token is canceled. -/
  armed : ∀ {i : Nat} {c : Context} {d : Instant}, r.contexts[i]? = some c → c.deadline = some d →
    ⟨d, c.token⟩ ∈ r.store.timers ∨ r.store.isCanceled c.token = true
  /-- A timer is there for a deadline. -/
  timers : ∀ t ∈ r.store.timers,
    ∃ (i : Nat) (c : Context), r.contexts[i]? = some c ∧ c.deadline = some t.due ∧ c.token = t.token

variable {r : ContextRun} {l l' : Pedigree} {i j p x : Nat} {c cx : Context}

/-- At the start, without any context, a run `Reflects` its pedigree. -/
theorem reflects_start : Reflects {} {} where
  now := rfl
  lineage := ⟨rfl, fun hc => absurd hc (by simp), fun hc => absurd hc (by simp)⟩
  inherits := fun i p k hk => absurd hk (by simp)
  sound := fun hc => absurd hc (by simp)
  explicit := by simp
  armed := fun hc => absurd hc (by simp)
  timers := by simp

namespace Reflects

/-- A context is past its deadline in the run exactly if it `IsOverdue` in the pedigree. -/
theorem isOverdue_iff (h : r.Reflects l) (hc : r.contexts[i]? = some c) :
    l.IsOverdue i ↔ ∃ d, c.deadline = some d ∧ d ≤ r.store.now := by
  obtain ⟨b, hb⟩ := h.lineage.exists_birth hc
  rw [(h.lineage.stems hc hb).2.1, h.now]
  constructor
  · rintro ⟨b', d, hb', hd, hle⟩
    obtain rfl := Option.some.inj (hb.symm.trans hb')
    exact ⟨d, hd, hle⟩
  · rintro ⟨d, hd, hle⟩
    exact ⟨b, d, hb, hd, hle⟩

/-! #### A new context -/

/-- Making a context with a token that fits its birth keeps `Reflects`. -/
theorem append (h : r.Reflects l) {tree : TokenTree} {timers : List Timer} {b : Birth}
    (hgrows : r.store.tree.Grows tree)
    (hsame : ∀ {j}, j < r.store.tree.size → tree.isCanceled j = r.store.tree.isCanceled j)
    (hlineage : Lineage tree (r.contexts ++ [c]) (l.births ++ [b]))
    (hsound : tree.isCanceled c.token = true →
      Pedigree.IsEnded { l with births := l.births ++ [b] } l.births.length)
    (hkept : ∀ t ∈ r.store.timers, t ∈ timers)
    (hnew : ∀ t ∈ timers, t ∈ r.store.timers ∨ (c.deadline = some t.due ∧ c.token = t.token))
    (harmed : ∀ d, c.deadline = some d → ⟨d, c.token⟩ ∈ timers ∨ tree.isCanceled c.token = true) :
    Reflects ⟨⟨r.store.now, tree, timers⟩, r.contexts ++ [c]⟩
      { l with births := l.births ++ [b] } := by
  have hold {j : Nat} {c' : Context} (hc' : r.contexts[j]? = some c') :
      (r.contexts ++ [c])[j]? = some c' := by
    rw [List.getElem?_append_left (List.getElem?_eq_some_iff.1 hc').1, hc']
  have hlast : (r.contexts ++ [c])[l.births.length]? = some c := by
    rw [← h.lineage.length, List.getElem?_concat_length]
  have hcases {j : Nat} {c' : Context} (hc' : (r.contexts ++ [c])[j]? = some c') :
      r.contexts[j]? = some c' ∨ (j = l.births.length ∧ c' = c) := by
    rcases Nat.lt_or_ge j r.contexts.length with hj | hj
    · rw [List.getElem?_append_left hj] at hc'
      exact .inl hc'
    · have hlt := (List.getElem?_eq_some_iff.1 hc').1
      rw [List.length_append, List.length_singleton, h.lineage.length] at hlt
      rw [h.lineage.length] at hj
      obtain rfl : j = l.births.length := by omega
      exact .inr ⟨rfl, Option.some.inj (hc'.symm.trans hlast)⟩
  refine ⟨h.now, hlineage, hgrows.inherits h.inherits, fun {j c'} hc' hcanceled => ?_, ?_,
    fun {j c' d} hc' hd => ?_, ?_⟩
  · rcases hcases hc' with hc' | ⟨rfl, rfl⟩
    · refine (l.extends_append b).isEnded (h.sound hc' ?_)
      exact (hsame (h.lineage.lt_size hc')).symm.trans hcanceled
    · exact hsound hcanceled
  · intro x hx
    obtain ⟨c', hc', hcanceled⟩ := h.explicit x hx
    exact ⟨c', hold hc', hgrows.isCanceled hcanceled⟩
  · rcases hcases hc' with hc' | ⟨rfl, rfl⟩
    · exact (h.armed hc' hd).imp (hkept _) hgrows.isCanceled
    · exact harmed d hd
  · intro t ht
    rcases hnew t ht with ht | ⟨hdue, htoken⟩
    · obtain ⟨j, c', hc', hrest⟩ := h.timers t ht
      exact ⟨j, c', hold hc', hrest⟩
    · exact ⟨_, c, hlast, hdue, htoken⟩

/-- The contexts of a run have tokens that were made before the next one. -/
theorem ne_size (h : r.Reflects l) : ∀ c ∈ r.contexts, c.token ≠ r.store.tree.size := by
  intro c hc
  obtain ⟨i, hi⟩ := List.getElem?_of_mem hc
  exact Nat.ne_of_lt (h.lineage.lt_size hi)

/-- Making a context from nothing keeps `Reflects`. -/
theorem background (h : r.Reflects l) :
    (r.step .background).Reflects (l.step .background) := by
  refine h.append (b := ⟨.background, none⟩) r.store.tree.grows_addRoot
    (TokenTree.isCanceled_append _) ?_ (fun hcanceled => ?_) (fun _ => id) (fun _ => .inl)
    (fun d hd => absurd hd (by simp))
  · refine (h.lineage.grow r.store.tree.grows_addRoot).append ?_ rfl ?_ fun _ => h.ne_size
    · exact TokenTree.size_lt_size_append _
    · exact TokenTree.parent?_append_size _
  · have hnew : r.store.tree.addRoot.isCanceled r.store.tree.size = false :=
      TokenTree.isCanceled_append_size _
    exact absurd (hnew.symm.trans hcanceled) Bool.false_ne_true

/-- Deriving a context keeps `Reflects`. -/
theorem childOf (h : r.Reflects l) {parent : Context} (hp : r.contexts[p]? = some parent)
    (deadline : Option Instant) :
    Reflects ⟨⟨r.store.now, r.store.tree.addChild parent.token,
        r.store.timers ++ (deadline.map fun d => ⟨d, r.store.tree.size⟩).toList⟩,
        r.contexts ++ [⟨r.store.tree.size, deadline⟩]⟩
      { l with births := l.births ++ [⟨.childOf p, deadline⟩] } := by
  have hgrows := r.store.tree.grows_addChild parent.token
  have hlt := h.lineage.lt_size hp
  refine h.append (b := ⟨.childOf p, deadline⟩) hgrows (TokenTree.isCanceled_append _) ?_
    (fun hcanceled => ?_) (fun t => List.mem_append_left _) (fun t ht => ?_) (fun d hd => ?_)
  · refine (h.lineage.grow hgrows).append ?_ rfl ?_ fun _ => h.ne_size
    · exact TokenTree.size_lt_size_append _
    · exact ⟨parent, hp, TokenTree.parent?_append_size _, hlt⟩
  · have hnew : (r.store.tree.addChild parent.token).isCanceled r.store.tree.size =
        r.store.tree.isCanceled parent.token := TokenTree.isCanceled_append_size _
    have hended := (l.extends_append ⟨.childOf p, deadline⟩).isEnded
      (h.sound hp (hnew.symm.trans hcanceled))
    refine Reaches.isEnded (.child .self ?_) hended
    rw [origin?, List.getElem?_concat_length]
    rfl
  · rcases List.mem_append.1 ht with ht | ht
    · exact .inl ht
    · obtain ⟨d, hd, rfl⟩ := Option.map_eq_some_iff.1 (Option.mem_toList.1 ht)
      exact .inr ⟨hd, rfl⟩
  · refine .inl (List.mem_append_right _ (Option.mem_toList.2 ?_))
    exact Option.map_eq_some_iff.2 ⟨d, hd, rfl⟩

/-- Copying a context keeps `Reflects`. -/
theorem clone (h : r.Reflects l) (hc : r.contexts[i]? = some c) :
    Reflects ⟨r.store, r.contexts ++ [c]⟩
      { l with births := l.births ++ [⟨.cloneOf i, c.deadline⟩] } := by
  refine h.append (b := ⟨.cloneOf i, c.deadline⟩) .rfl (fun _ => rfl) ?_ (fun hcanceled => ?_)
    (fun _ => id) (fun _ => .inl) (fun d hd => h.armed hc hd)
  · refine h.lineage.append (h.lineage.lt_size hc) rfl ⟨?_, hc⟩ fun hfirst => absurd hfirst id
    exact (List.getElem?_eq_some_iff.1 hc).1
  · have hended := (l.extends_append ⟨.cloneOf i, c.deadline⟩).isEnded (h.sound hc hcanceled)
    refine Reaches.isEnded (.clone .self ?_) hended
    rw [origin?, List.getElem?_concat_length]
    rfl

/-! #### A cancelation -/

/-- Canceling the token of a context cancels the contexts that it `Reaches`, and no others. -/
theorem isCanceled_cancel_iff (h : r.Reflects l) (hcx : r.contexts[x]? = some cx)
    (hc : r.contexts[i]? = some c) :
    (r.store.tree.cancel cx.token).isCanceled c.token = true ↔
      r.store.isCanceled c.token = true ∨ l.Reaches x i := by
  rw [TokenTree.isCanceled_cancel_iff h.inherits (h.lineage.lt_size hcx),
    h.lineage.reaches_iff hcx hc]
  rfl

/-- Canceling a context keeps `Reflects`, whether the program says so or it is past its deadline. -/
theorem cancel (h : r.Reflects l) (hcx : r.contexts[x]? = some cx) (hext : l.Extends l')
    (hbirths : l'.births = l.births) (hnow : l'.now = l.now)
    (hx : x ∈ l'.canceled ∨ l'.IsOverdue x) (hcanceled : ∀ y ∈ l'.canceled, y = x ∨ y ∈ l.canceled)
    {timers : List Timer} (htimers : ∀ t ∈ timers, t ∈ r.store.timers)
    (hgone : ∀ t ∈ r.store.timers, t ∈ timers ∨ t.token = cx.token) :
    Reflects ⟨⟨r.store.now, r.store.tree.cancel cx.token, timers⟩, r.contexts⟩ l' := by
  have hgrows := r.store.tree.grows_cancel cx.token
  have hself : (r.store.tree.cancel cx.token).isCanceled cx.token = true :=
    (h.isCanceled_cancel_iff hcx hcx).2 (.inr .self)
  refine ⟨h.now.trans hnow.symm, hbirths ▸ h.lineage.grow hgrows, hgrows.inherits h.inherits,
    fun {j c'} hc' hcanceled' => ?_, ?_, fun {j c' d} hc' hd => ?_,
    fun t ht => h.timers t (htimers t ht)⟩
  · rcases (h.isCanceled_cancel_iff hcx hc').1 hcanceled' with hbefore | hreaches
    · exact hext.isEnded (h.sound hc' hbefore)
    · exact ⟨x, hext.reaches hreaches, hx⟩
  · intro y hy
    rcases hcanceled y hy with rfl | hy
    · exact ⟨cx, hcx, hself⟩
    · obtain ⟨c', hc', hbefore⟩ := h.explicit y hy
      exact ⟨c', hc', hgrows.isCanceled hbefore⟩
  · rcases h.armed hc' hd with ht | hbefore
    · rcases hgone _ ht with ht | htoken
      · exact .inl ht
      · exact .inr (htoken ▸ hself)
    · exact .inr (hgrows.isCanceled hbefore)

/-- A timer that fires is that of a context that `IsOverdue`. -/
theorem fire (h : r.Reflects l) (place : Nat) :
    (r.step (.fire place)).store = r.store ∨
    ∃ x cx timers, r.contexts[x]? = some cx ∧ l.IsOverdue x ∧
      (∀ t ∈ timers, t ∈ r.store.timers) ∧
      (∀ t ∈ r.store.timers, t ∈ timers ∨ t.token = cx.token) ∧
      (r.step (.fire place)).store = ⟨r.store.now, r.store.tree.cancel cx.token, timers⟩ := by
  have hsplit := List.take_append_drop place r.store.timers
  rcases r.store.fireDue_cases (r.store.timers.take place) (r.store.timers.drop place) with
    hidle | ⟨before, t, rest, hrest, hdue, hfired⟩
  · refine .inl (hidle.trans ?_)
    rw [hsplit]
  · have htimers : r.store.timers = r.store.timers.take place ++ before ++ t :: rest := by
      rw [List.append_assoc, ← hrest, hsplit]
    obtain ⟨x, cx, hcx, hdeadline, htoken⟩ := h.timers t (by rw [htimers]; simp)
    refine .inr ⟨x, cx, _, hcx, (h.isOverdue_iff hcx).2 ⟨_, hdeadline, hdue⟩, fun t' ht' => ?_,
      fun t' ht' => ?_, hfired.trans (by rw [htoken]; rfl)⟩
    · rw [htimers]
      exact (List.Sublist.append_left (List.sublist_cons_self t rest) _).subset ht'
    · rw [htimers] at ht'
      rcases List.mem_append.1 ht' with ht' | ht'
      · exact .inl (List.mem_append_left _ ht')
      · rcases List.mem_cons.1 ht' with rfl | ht'
        · exact .inr htoken.symm
        · exact .inl (List.mem_append_right _ ht')

/-! #### Histories -/

/-- Every step keeps `Reflects`. -/
theorem step (h : r.Reflects l) (a : ContextStep) : (r.step a).Reflects (l.step a) := by
  have hlength := h.lineage.length
  cases a with
  | background => exact h.background
  | childOf p timeout =>
    unfold ContextRun.step Pedigree.step
    dsimp only
    cases hp : r.contexts[p]? with
    | none =>
      have hmissing : ¬ p < l.births.length := by
        rw [← hlength, Nat.not_lt]
        exact List.getElem?_eq_none_iff.1 hp
      rw [if_neg hmissing]
      exact h
    | some parent =>
      have hlt : p < l.births.length := hlength ▸ (List.getElem?_eq_some_iff.1 hp).1
      rw [if_pos hlt]
      dsimp only
      rw [r.store.childOf_eq parent.token timeout (by rw [h.now])]
      exact h.childOf hp _
  | clone i =>
    unfold ContextRun.step Pedigree.step
    dsimp only
    cases hc : r.contexts[i]? with
    | none =>
      have hmissing : l.births[i]? = none := by
        rw [List.getElem?_eq_none_iff, ← hlength]
        exact List.getElem?_eq_none_iff.1 hc
      rw [hmissing]
      exact h
    | some c =>
      obtain ⟨b, hb⟩ := h.lineage.exists_birth hc
      rw [hb]
      dsimp only
      rw [← (h.lineage.stems hc hb).2.1]
      exact h.clone hc
  | cancel i =>
    unfold ContextRun.step Pedigree.step
    dsimp only
    cases hc : r.contexts[i]? with
    | none =>
      have hmissing : ¬ i < l.births.length := by
        rw [← hlength, Nat.not_lt]
        exact List.getElem?_eq_none_iff.1 hc
      rw [if_neg hmissing]
      exact h
    | some c =>
      have hlt : i < l.births.length := hlength ▸ (List.getElem?_eq_some_iff.1 hc).1
      have hext : l.Extends { l with canceled := i :: l.canceled } :=
        ⟨List.prefix_rfl, fun _ => List.mem_cons_of_mem _, Nat.le_refl _⟩
      rw [if_pos hlt]
      exact h.cancel hc hext rfl rfl (.inl List.mem_cons_self) (fun _ => List.mem_cons.1)
        (fun _ => id) (fun _ => .inl)
  | advance span =>
    have hext : l.Extends (l.step (.advance span)) :=
      ⟨List.prefix_rfl, fun _ => id, Nat.le_add_right ..⟩
    refine ⟨?_, h.lineage, h.inherits, fun hc hcanceled => hext.isEnded (h.sound hc hcanceled),
      h.explicit, h.armed, h.timers⟩
    exact (Nat.max_eq_right (Nat.le_add_right ..)).trans (congrArg (· + span) h.now)
  | fire place =>
    rcases h.fire place with hidle | ⟨x, cx, timers, hcx, hoverdue, htimers, hgone, hfired⟩
    · have hrun : r.step (.fire place) = r := congrArg (ContextRun.mk · r.contexts) hidle
      rw [hrun]
      exact h
    · have hrun : r.step (.fire place) =
          ⟨⟨r.store.now, r.store.tree.cancel cx.token, timers⟩, r.contexts⟩ :=
        congrArg (ContextRun.mk · r.contexts) hfired
      rw [hrun]
      exact h.cancel hcx ⟨List.prefix_rfl, fun _ => id, Nat.le_refl _⟩ rfl rfl (.inr hoverdue)
        (fun _ => .inr) htimers hgone

end Reflects

/-- The run of every history `Reflects` the pedigree of the history. -/
theorem reflects_after (steps : List ContextStep) :
    (after steps).Reflects (Pedigree.after steps) := by
  have hrun : ∀ {r l}, Reflects r l →
      (steps.foldl ContextRun.step r).Reflects (steps.foldl Pedigree.step l) := by
    induction steps with
    | nil => exact id
    | cons a steps ih => exact fun h => ih (h.step a)
  exact hrun reflects_start

/-! ### Why a context has ended -/

namespace Reflects

/-- When no timer is late, the token of a context is canceled exactly if the context `IsEnded`. -/
theorem isCanceled_iff (h : r.Reflects l) (hsettled : r.IsSettled)
    (hc : r.contexts[i]? = some c) : r.store.isCanceled c.token = true ↔ l.IsEnded i := by
  refine ⟨h.sound hc, ?_⟩
  rintro ⟨x, hreaches, hx⟩
  obtain ⟨cx, hcx, hcanceled⟩ :
      ∃ cx, r.contexts[x]? = some cx ∧ r.store.isCanceled cx.token = true := by
    rcases hx with hx | hoverdue
    · exact h.explicit x hx
    · obtain ⟨b, -, hb, -⟩ := id hoverdue
      obtain ⟨cx, hcx⟩ := h.lineage.exists_context hb
      obtain ⟨d, hd, hle⟩ := (h.isOverdue_iff hcx).1 hoverdue
      exact ⟨cx, hcx, (h.armed hcx hd).elim (fun ht => hsettled _ ht hle) id⟩
  obtain ⟨c', hc', hdescends⟩ := h.lineage.descends_of_reaches hcx hreaches
  obtain rfl := Option.some.inj (hc.symm.trans hc')
  exact hdescends.isCanceled h.inherits hcanceled

/-- `err` of a context says that the deadline has passed exactly if the context `IsOverdue`, and
else that it was canceled exactly if its token is. -/
theorem err_eq (h : r.Reflects l) (hc : r.contexts[i]? = some c) :
    (r.store.err c = some .deadlineExceeded ↔ l.IsOverdue i) ∧
    (r.store.err c = some .canceled ↔ ¬ l.IsOverdue i ∧ r.store.isCanceled c.token = true) ∧
    (r.store.err c = none ↔ ¬ l.IsOverdue i ∧ r.store.isCanceled c.token = false) := by
  have hany : (c.deadline.any fun d => decide (d ≤ r.store.now)) = true ↔ l.IsOverdue i := by
    rw [h.isOverdue_iff hc]
    cases c.deadline with
    | none => simp
    | some d => simp
  unfold ContextStore.err
  split
  next hoverdue => simp [hany.1 hoverdue]
  next hoverdue =>
    have hnot : ¬ l.IsOverdue i := fun ho => hoverdue (hany.2 ho)
    split
    next hcanceled => simp [hnot, hcanceled]
    next hcanceled => simp [hnot, Bool.not_eq_true _ ▸ hcanceled]

end Reflects

end ContextRun

/-! ### Parents and siblings -/

namespace Lineage

variable {tree : TokenTree} {contexts : List Context} {l : Pedigree} {i j p : Nat}

/-- Contexts of which one `IsSame` as the other have the same token. -/
theorem map_token_eq (h : Lineage tree contexts l.births) (hsame : l.IsSame i j) :
    contexts[i]?.map Context.token = contexts[j]?.map Context.token := by
  induction hsame with
  | rel j i hi =>
    obtain ⟨c, hc, -, hc'⟩ := h.stems_of_origin hi
    rw [hc, hc']
  | refl => rfl
  | symm _ _ _ ih => exact ih.symm
  | trans _ _ _ _ _ ih ih' => exact ih.trans ih'

/-- The token of a context that `IsChild` of another has the token of this one for a parent. -/
theorem token_of_isChild (h : Lineage tree contexts l.births) (hchild : l.IsChild p i) :
    ∃ c cp, contexts[i]? = some c ∧ contexts[p]? = some cp ∧
      tree.parent? c.token = some cp.token ∧ cp.token < c.token := by
  obtain ⟨p', i', hp, hi, horigin⟩ := hchild
  obtain ⟨c', hc', cp', hcp', hparent, hless⟩ := h.stems_of_origin horigin
  have hptoken := h.map_token_eq hp
  have hitoken := h.map_token_eq hi
  rw [hcp', Option.map_some, Option.map_eq_some_iff] at hptoken
  rw [hc', Option.map_some, Option.map_eq_some_iff] at hitoken
  obtain ⟨cp, hcp, hcptoken⟩ := hptoken
  obtain ⟨c, hc, hctoken⟩ := hitoken
  exact ⟨c, cp, hc, hcp, by rw [hctoken, hcptoken, hparent], by rw [hctoken, hcptoken]; exact hless⟩

/-- No cancelation `Reaches` from a child to its parent. -/
theorem not_reaches_parent (h : Lineage tree contexts l.births) (hchild : l.IsChild p i) :
    ¬ l.Reaches i p := by
  intro hreaches
  obtain ⟨c, cp, hc, hcp, -, hless⟩ := h.token_of_isChild hchild
  exact Nat.not_le_of_lt hless ((h.reaches_iff hc hcp).1 hreaches).le

/-- No cancelation `Reaches` from a context to its sibling. -/
theorem not_reaches_sibling (h : Lineage tree contexts l.births) (hsiblings : l.AreSiblings i j) :
    ¬ l.Reaches i j := by
  obtain ⟨hdifferent, p, hi, hj⟩ := hsiblings
  intro hreaches
  obtain ⟨ci, cp, hci, hcp, -, hless⟩ := h.token_of_isChild hi
  obtain ⟨cj, cp', hcj, hcp', hparent, -⟩ := h.token_of_isChild hj
  obtain rfl := Option.some.inj (hcp.symm.trans hcp')
  rcases ((h.reaches_iff hci hcj).1 hreaches).eq_or_parent with htoken | ⟨t, ht, -, hdescends⟩
  · exact hdifferent (h.isSame_of_token_eq hci hcj htoken.symm)
  · obtain rfl := Option.some.inj (hparent.symm.trans ht)
    exact Nat.not_le_of_lt hless hdescends.le

end Lineage

namespace ContextRun

/-- In a step the tokens of the contexts in reach of a context are canceled, and no others. -/
def CancelsUnder (r : ContextRun) (l : Pedigree) (x : Nat) (a : ContextStep) : Prop :=
  ∀ i c, r.contexts[i]? = some c →
    ((r.step a).store.isCanceled c.token = true ↔
      r.store.isCanceled c.token = true ∨ l.Reaches x i)

/-- Contexts are made, derived, copied and canceled in any order, time passes, and timers fire in
any order.  Whenever no timer is late, a context is canceled exactly if it, a copy of it or an
ancestor was canceled or is past its deadline; and at any time it gives its own deadline as the
reason if that has passed, else its cancelation, else none.  A cancelation, and a deadline that
fires, cancels the contexts in reach of its own context and no others; a parent and a sibling are
never in reach. -/
theorem isCanceled_iff_isEnded (steps : List ContextStep) :
    (∀ i < (Pedigree.after steps).births.length, ∃ c, (after steps).contexts[i]? = some c ∧
      ((after steps).IsSettled →
        ((after steps).store.isCanceled c.token = true ↔ (Pedigree.after steps).IsEnded i)) ∧
      ((after steps).store.err c = some .deadlineExceeded ↔ (Pedigree.after steps).IsOverdue i) ∧
      ((after steps).store.err c = some .canceled ↔
        ¬ (Pedigree.after steps).IsOverdue i ∧ (after steps).store.isCanceled c.token = true) ∧
      ((after steps).store.err c = none ↔
        ¬ (Pedigree.after steps).IsOverdue i ∧ (after steps).store.isCanceled c.token = false)) ∧
    (∀ x < (Pedigree.after steps).births.length,
      (after steps).CancelsUnder (Pedigree.after steps) x (.cancel x)) ∧
    (∀ place, ((after steps).step (.fire place)).store = (after steps).store ∨
      ∃ x, (Pedigree.after steps).IsOverdue x ∧
        (after steps).CancelsUnder (Pedigree.after steps) x (.fire place)) ∧
    (∀ x p, (Pedigree.after steps).IsChild p x → ¬ (Pedigree.after steps).Reaches x p) ∧
    (∀ x y, (Pedigree.after steps).AreSiblings x y → ¬ (Pedigree.after steps).Reaches x y) := by
  have h := reflects_after steps
  refine ⟨fun i hi => ?_, fun x hx => ?_, fun place => ?_, fun x p => h.lineage.not_reaches_parent,
    fun x y => h.lineage.not_reaches_sibling⟩
  · obtain ⟨c, hc⟩ := h.lineage.exists_context (List.getElem?_eq_getElem hi)
    exact ⟨c, hc, fun hsettled => h.isCanceled_iff hsettled hc, h.err_eq hc⟩
  · obtain ⟨cx, hcx⟩ := h.lineage.exists_context (List.getElem?_eq_getElem hx)
    intro i c hc
    have hstep : ((after steps).step (.cancel x)).store = (after steps).store.cancel cx.token := by
      unfold ContextRun.step
      dsimp only
      rw [hcx]
    rw [hstep]
    exact h.isCanceled_cancel_iff hcx hc
  · rcases h.fire place with hidle | ⟨x, cx, timers, hcx, hoverdue, -, -, hfired⟩
    · exact .inl hidle
    · refine .inr ⟨x, hoverdue, fun i c hc => ?_⟩
      rw [hfired]
      exact h.isCanceled_cancel_iff hcx hc

/-- A context with a timeout has a copy, and the copy has a child; the timeout passes. -/
def overdueFamily : List ContextStep :=
  [.background, .childOf 0 (some (.ofSecs 1)), .clone 1, .childOf 2 none, .advance 1000000000,
    .fire 0]

/-- In `overdueFamily` the child of the copy has ended, and the first context has not. -/
theorem isCanceled_iff_isEnded_overdueFamily :
    (after overdueFamily).IsSettled ∧ (Pedigree.after overdueFamily).IsEnded 3 ∧
      ¬ (Pedigree.after overdueFamily).IsEnded 0 := by
  have hsettled : (after overdueFamily).IsSettled := by
    unfold IsSettled
    decide
  have hends := (isCanceled_iff_isEnded overdueFamily).1
  obtain ⟨c, hc, hlast, -⟩ := hends 3 (by decide)
  obtain ⟨c', hc', hfirst, -⟩ := hends 0 (by decide)
  refine ⟨hsettled, (hlast hsettled).1 ?_, fun hended => ?_⟩
  · obtain rfl : _ = c := Option.some.inj hc
    decide
  · have hcanceled := (hfirst hsettled).2 hended
    obtain rfl : _ = c' := Option.some.inj hc'
    exact absurd hcanceled (by decide)

end ContextRun

end TaskScheduler
