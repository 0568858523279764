import Mathlib.Logic.Relation
import TaskScheduler.Proofs.Context.Tokens

/-!
# When contexts end

A program makes contexts, derives contexts from them, copies and cancels them, and meanwhile the
clock goes on and timers fire.  The pedigree of such a history is what can be told without any token
or timer: which context was made from which, with what deadline, and which ones were canceled.

A context is canceled if it, a copy of it or an ancestor was canceled or is past its deadline, and
nothing else cancels it.  This is so for every history once the timers that are due have fired.
Before that a context may be late, but it is never canceled for another reason.
-/

namespace TaskScheduler

/-! ### Histories -/

/-- A step of a program.  Contexts have numbers, in the order in which they were made. -/
inductive ContextStep where
  /-- Make a context that ends only when it is canceled. -/
  | background
  /-- Derive a context from another one. -/
  | childOf (parent : Nat) (timeout : Option Duration)
  /-- Copy a context. -/
  | clone (i : Nat)
  /-- Cancel a context. -/
  | cancel (i : Nat)
  /-- Let some time pass. -/
  | advance (span : Nat)
  /-- Fire the first due timer among those from a place on. -/
  | fire (place : Nat)

/-- The contexts that a program has, with their tokens and timers. -/
structure ContextRun where
  /-- Tokens, timers and the clock. -/
  store : ContextStore := {}
  /-- The contexts, oldest first. -/
  contexts : List Context := []

namespace ContextRun

/-- One step.  A step that names a context that does not exist does nothing. -/
def step (r : ContextRun) : ContextStep → ContextRun
  | .background =>
    let (c, store) := r.store.background
    ⟨store, r.contexts ++ [c]⟩
  | .childOf p timeout =>
    match r.contexts[p]? with
    | none => r
    | some parent =>
      let (c, store) := r.store.childOf parent.token timeout
      ⟨store, r.contexts ++ [c]⟩
  | .clone i =>
    match r.contexts[i]? with
    | none => r
    | some c => ⟨r.store, r.contexts ++ [c]⟩
  | .cancel i =>
    match r.contexts[i]? with
    | none => r
    | some c => ⟨r.store.cancel c.token, r.contexts⟩
  | .advance span => ⟨r.store.passTo (r.store.now + span), r.contexts⟩
  | .fire place =>
    ⟨r.store.fireDue (r.store.timers.take place) (r.store.timers.drop place), r.contexts⟩

/-- The steps of a history, from the start. -/
def after (steps : List ContextStep) : ContextRun := steps.foldl step {}

/-- The timers that are due have fired, but for those of tokens that are canceled anyway. -/
def IsSettled (r : ContextRun) : Prop :=
  ∀ t ∈ r.store.timers, t.due ≤ r.store.now → r.store.isCanceled t.token = true

end ContextRun

/-! ### Pedigrees -/

/-- How a context was made. -/
inductive Origin where
  /-- From nothing. -/
  | background
  /-- Derived from another context. -/
  | childOf (parent : Nat)
  /-- Copied from another context. -/
  | cloneOf (original : Nat)
  deriving DecidableEq

/-- A context as its maker knows it. -/
structure Birth where
  /-- How it was made. -/
  origin : Origin
  /-- Its deadline. -/
  deadline : Option Instant

/-- What a history says about contexts, whatever becomes of tokens and timers. -/
structure Pedigree where
  /-- The present instant. -/
  now : Instant := 0
  /-- The contexts, oldest first. -/
  births : List Birth := []
  /-- The contexts that were canceled, last first. -/
  canceled : List Nat := []

namespace Pedigree

/-- One step. -/
def step (l : Pedigree) : ContextStep → Pedigree
  | .background => { l with births := l.births ++ [⟨.background, none⟩] }
  | .childOf p timeout =>
    if p < l.births.length then
      let due := (timeout.filter fun t => !t.isZero).map fun t => l.now + t.nanos
      { l with births := l.births ++ [⟨.childOf p, due⟩] }
    else l
  | .clone i =>
    match l.births[i]? with
    | none => l
    | some b => { l with births := l.births ++ [⟨.cloneOf i, b.deadline⟩] }
  | .cancel i => if i < l.births.length then { l with canceled := i :: l.canceled } else l
  | .advance span => { l with now := l.now + span }
  | .fire _ => l

/-- The pedigree of a history. -/
def after (steps : List ContextStep) : Pedigree := steps.foldl step {}

/-- How a context was made. -/
def origin? (l : Pedigree) (i : Nat) : Option Origin := l.births[i]?.map Birth.origin

/-- A cancelation of the one context reaches the other: from a parent to its children, and between
copies in both directions. -/
inductive Reaches (l : Pedigree) (x : Nat) : Nat → Prop
  /-- The context itself. -/
  | self : Reaches l x x
  /-- A child. -/
  | child {p i : Nat} (h : Reaches l x p) (hi : l.origin? i = some (.childOf p)) : Reaches l x i
  /-- A copy. -/
  | clone {j i : Nat} (h : Reaches l x j) (hi : l.origin? i = some (.cloneOf j)) : Reaches l x i
  /-- The original of a copy. -/
  | original {j i : Nat} (h : Reaches l x i) (hi : l.origin? i = some (.cloneOf j)) : Reaches l x j

/-- The context is past its own deadline. -/
def IsOverdue (l : Pedigree) (i : Nat) : Prop :=
  ∃ b d, l.births[i]? = some b ∧ b.deadline = some d ∧ d ≤ l.now

/-- The context, a copy of it or an ancestor was canceled or is past its deadline. -/
def IsEnded (l : Pedigree) (i : Nat) : Prop :=
  ∃ x, l.Reaches x i ∧ (x ∈ l.canceled ∨ l.IsOverdue x)

/-- The one context is a copy of the other, or both are copies, perhaps at several removes. -/
def IsSame (l : Pedigree) : Nat → Nat → Prop :=
  Relation.EqvGen fun j i => l.origin? i = some (.cloneOf j)

/-- The one context was derived from the other, up to copies. -/
def IsChild (l : Pedigree) (p i : Nat) : Prop :=
  ∃ p' i', l.IsSame p p' ∧ l.IsSame i i' ∧ l.origin? i' = some (.childOf p')

/-- The contexts have a common parent and are not copies of each other. -/
def AreSiblings (l : Pedigree) (i j : Nat) : Prop :=
  ¬ l.IsSame i j ∧ ∃ p, l.IsChild p i ∧ l.IsChild p j

/-! ### Pedigrees only grow -/

/-- Nothing in a pedigree is taken back. -/
structure Extends (l l' : Pedigree) : Prop where
  /-- Contexts are added. -/
  births : l.births <+: l'.births
  /-- Cancelations are added. -/
  canceled : ∀ x ∈ l.canceled, x ∈ l'.canceled
  /-- The clock goes on. -/
  now : l.now ≤ l'.now

variable {l l' : Pedigree} {x i j p : Nat}

/-- A context stays as it was made in every pedigree that `Extends` the one of its birth. -/
theorem Extends.getElem? (h : l.Extends l') {b : Birth} (hb : l.births[i]? = some b) :
    l'.births[i]? = some b := by
  obtain ⟨rest, hrest⟩ := h.births
  have hlt : i < l.births.length := (List.getElem?_eq_some_iff.1 hb).1
  rw [← hrest, List.getElem?_append_left hlt, hb]

/-- The `origin?` of a context stays in every pedigree that `Extends` another. -/
theorem Extends.origin? (h : l.Extends l') {o : Origin} (ho : l.origin? i = some o) :
    l'.origin? i = some o := by
  obtain ⟨b, hb, rfl⟩ := Option.map_eq_some_iff.1 ho
  rw [Pedigree.origin?, h.getElem? hb]
  rfl

/-- What a context `Reaches` stays in reach. -/
theorem Extends.reaches (h : l.Extends l') (hr : l.Reaches x i) : l'.Reaches x i := by
  induction hr with
  | self => exact .self
  | child _ hi ih => exact .child ih (h.origin? hi)
  | clone _ hi ih => exact .clone ih (h.origin? hi)
  | original _ hi ih => exact .original ih (h.origin? hi)

/-- A context that has ended `IsEnded` in every pedigree that `Extends` this one. -/
theorem Extends.isEnded (h : l.Extends l') (hi : l.IsEnded i) : l'.IsEnded i := by
  obtain ⟨x, hr, hx⟩ := hi
  refine ⟨x, h.reaches hr, hx.imp (h.canceled x) ?_⟩
  rintro ⟨b, d, hb, hd, hle⟩
  exact ⟨b, d, h.getElem? hb, hd, Nat.le_trans hle h.now⟩

/-- A pedigree with one more birth `Extends` the one without it. -/
theorem extends_append (l : Pedigree) (b : Birth) :
    l.Extends { l with births := l.births ++ [b] } :=
  ⟨List.prefix_append .., fun _ => id, Nat.le_refl _⟩

/-- What has ended ends every context that it `Reaches`. -/
theorem Reaches.isEnded (h : l.Reaches i j) (hi : l.IsEnded i) : l.IsEnded j := by
  obtain ⟨x, hr, hx⟩ := hi
  refine ⟨x, ?_, hx⟩
  induction h with
  | self => exact hr
  | child _ ho ih => exact .child ih ho
  | clone _ ho ih => exact .clone ih ho
  | original _ ho ih => exact .original ih ho

end Pedigree

open Pedigree

/-! ### Contexts of a pedigree -/

/-- The token of a context fits the way in which the context was made. -/
def Stems (tree : TokenTree) (contexts : List Context) (i : Nat) (c : Context) : Origin → Prop
  | .background => tree.parent? c.token = none
  | .childOf p => ∃ parent, contexts[p]? = some parent ∧
      tree.parent? c.token = some parent.token ∧ parent.token < c.token
  | .cloneOf j => j < i ∧ contexts[j]? = some c

/-- A context that is not a copy. -/
def Origin.IsFirst : Origin → Prop
  | .cloneOf _ => False
  | _ => True

/-- The contexts of a run are those of a pedigree, and each one that is not a copy has a token of
its own. -/
structure Lineage (tree : TokenTree) (contexts : List Context) (births : List Birth) : Prop where
  /-- No context is missing. -/
  length : contexts.length = births.length
  /-- Each context is as it was made. -/
  stems : ∀ {i : Nat} {c : Context} {b : Birth}, contexts[i]? = some c → births[i]? = some b →
    c.token < tree.size ∧ c.deadline = b.deadline ∧ Stems tree contexts i c b.origin
  /-- Contexts that are not copies have different tokens. -/
  firsts : ∀ {i j : Nat} {c c' : Context} {b b' : Birth}, contexts[i]? = some c →
    births[i]? = some b → b.origin.IsFirst → contexts[j]? = some c' → births[j]? = some b' →
    b'.origin.IsFirst → c.token = c'.token → i = j

namespace Lineage

variable {tree tree' : TokenTree} {contexts : List Context} {births : List Birth} {l : Pedigree}
  {x i j : Nat} {c cx : Context}

/-- In a `Lineage` every birth has its context. -/
theorem exists_context (h : Lineage tree contexts births) {b : Birth} (hb : births[i]? = some b) :
    ∃ c, contexts[i]? = some c := by
  have hlt : i < births.length := (List.getElem?_eq_some_iff.1 hb).1
  exact ⟨_, List.getElem?_eq_getElem (h.length ▸ hlt)⟩

/-- In a `Lineage` every context has its birth. -/
theorem exists_birth (h : Lineage tree contexts births) (hc : contexts[i]? = some c) :
    ∃ b, births[i]? = some b := by
  have hlt : i < contexts.length := (List.getElem?_eq_some_iff.1 hc).1
  exact ⟨_, List.getElem?_eq_getElem (h.length ▸ hlt)⟩

/-- In a `Lineage` the token of a context is one of the tree. -/
theorem lt_size (h : Lineage tree contexts births) (hc : contexts[i]? = some c) :
    c.token < tree.size := by
  obtain ⟨b, hb⟩ := h.exists_birth hc
  exact (h.stems hc hb).1

/-- In a `Lineage` a context of a known origin `Stems` as this says. -/
theorem stems_of_origin (h : Lineage tree contexts l.births) {o : Origin}
    (ho : l.origin? i = some o) : ∃ c, contexts[i]? = some c ∧ Stems tree contexts i c o := by
  obtain ⟨b, hb, rfl⟩ := Option.map_eq_some_iff.1 ho
  obtain ⟨c, hc⟩ := h.exists_context hb
  exact ⟨c, hc, (h.stems hc hb).2.2⟩

/-- Adding or canceling tokens keeps the `Lineage`. -/
theorem grow (h : Lineage tree contexts births) (hgrows : tree.Grows tree') :
    Lineage tree' contexts births where
  length := h.length
  stems {i c b} hc hb := by
    obtain ⟨hlt, hdeadline, hstems⟩ := h.stems hc hb
    refine ⟨hgrows.lt_size hlt, hdeadline, ?_⟩
    cases horigin : b.origin with
    | background =>
      rw [horigin] at hstems
      exact (hgrows.parent? hlt).trans hstems
    | childOf p =>
      rw [horigin] at hstems
      obtain ⟨parent, hparent, htoken, hless⟩ := hstems
      exact ⟨parent, hparent, (hgrows.parent? hlt).trans htoken, hless⟩
    | cloneOf j =>
      rw [horigin] at hstems
      exact hstems
  firsts := h.firsts

/-- Adding a context keeps the `Lineage`, if its token is a new one or that of the context of which
it is a copy. -/
theorem append (h : Lineage tree contexts births) {b : Birth} (hlt : c.token < tree.size)
    (hdeadline : c.deadline = b.deadline) (hstems : Stems tree contexts contexts.length c b.origin)
    (hfirst : b.origin.IsFirst → ∀ c' ∈ contexts, c'.token ≠ c.token) :
    Lineage tree (contexts ++ [c]) (births ++ [b]) := by
  have hold {j : Nat} {c' : Context} (hc' : contexts[j]? = some c') :
      (contexts ++ [c])[j]? = some c' := by
    rw [List.getElem?_append_left (List.getElem?_eq_some_iff.1 hc').1, hc']
  have hkept {j : Nat} {c' : Context} {o : Origin} (hs : Stems tree contexts j c' o) :
      Stems tree (contexts ++ [c]) j c' o := by
    cases o with
    | background => exact hs
    | childOf p =>
      obtain ⟨parent, hparent, hrest⟩ := hs
      exact ⟨parent, hold hparent, hrest⟩
    | cloneOf j => exact ⟨hs.1, hold hs.2⟩
  -- a context is an old one with its birth, or the new one with its birth
  have hcases {j : Nat} {c' : Context} {b' : Birth} (hc' : (contexts ++ [c])[j]? = some c')
      (hb' : (births ++ [b])[j]? = some b') :
      (contexts[j]? = some c' ∧ births[j]? = some b') ∨
        (j = contexts.length ∧ c' = c ∧ b' = b) := by
    rcases Nat.lt_trichotomy j contexts.length with hj | rfl | hj
    · rw [List.getElem?_append_left hj] at hc'
      rw [List.getElem?_append_left (h.length ▸ hj)] at hb'
      exact .inl ⟨hc', hb'⟩
    · rw [List.getElem?_concat_length] at hc'
      rw [h.length, List.getElem?_concat_length] at hb'
      exact .inr ⟨rfl, (Option.some.inj hc').symm, (Option.some.inj hb').symm⟩
    · have := (List.getElem?_eq_some_iff.1 hc').1
      rw [List.length_append, List.length_singleton] at this
      omega
  refine ⟨by simp [h.length], fun {j c' b'} hc' hb' => ?_, ?_⟩
  · rcases hcases hc' hb' with ⟨hc', hb'⟩ | ⟨rfl, rfl, rfl⟩
    · obtain ⟨hlt', hdeadline', hstems'⟩ := h.stems hc' hb'
      exact ⟨hlt', hdeadline', hkept hstems'⟩
    · exact ⟨hlt, hdeadline, hkept hstems⟩
  · intro j j' c₁ c₂ b₁ b₂ hc₁ hb₁ hfirst₁ hc₂ hb₂ hfirst₂ htoken
    rcases hcases hc₁ hb₁ with ⟨hold₁, hbirth₁⟩ | ⟨rfl, rfl, rfl⟩
    · rcases hcases hc₂ hb₂ with ⟨hold₂, hbirth₂⟩ | ⟨rfl, rfl, rfl⟩
      · exact h.firsts hold₁ hbirth₁ hfirst₁ hold₂ hbirth₂ hfirst₂ htoken
      · exact absurd htoken (hfirst hfirst₂ c₁ (List.mem_of_getElem? hold₁))
    · rcases hcases hc₂ hb₂ with ⟨hold₂, -⟩ | ⟨rfl, rfl, rfl⟩
      · exact absurd htoken.symm (hfirst hfirst₁ c₂ (List.mem_of_getElem? hold₂))
      · rfl

/-! ### What a cancelation reaches -/

/-- The token of what a context `Reaches` descends from the token of this context. -/
theorem descends_of_reaches (h : Lineage tree contexts l.births) (hcx : contexts[x]? = some cx)
    (hr : l.Reaches x i) : ∃ c, contexts[i]? = some c ∧ tree.Descends cx.token c.token := by
  induction hr with
  | self => exact ⟨cx, hcx, .refl⟩
  | child _ hi ih =>
    obtain ⟨c, hc, parent, hparent, htoken, hless⟩ := h.stems_of_origin hi
    obtain ⟨c', hc', hdescends⟩ := ih
    obtain rfl := Option.some.inj (hparent.symm.trans hc')
    obtain ⟨k, hk, hkparent⟩ := Option.bind_eq_some_iff.1 htoken
    exact ⟨c, hc, .child hdescends hk hkparent hless⟩
  | clone _ hi ih =>
    obtain ⟨c, hc, -, hc'⟩ := h.stems_of_origin hi
    obtain ⟨c₁, hc₁, hdescends⟩ := ih
    obtain rfl := Option.some.inj (hc'.symm.trans hc₁)
    exact ⟨c, hc, hdescends⟩
  | original _ hi ih =>
    obtain ⟨c, hc, -, hc'⟩ := h.stems_of_origin hi
    obtain ⟨c₁, hc₁, hdescends⟩ := ih
    obtain rfl := Option.some.inj (hc.symm.trans hc₁)
    exact ⟨c, hc', hdescends⟩

/-- Every context `IsSame` as one that is not a copy, and has the token of this one. -/
theorem exists_first (h : Lineage tree contexts l.births) (hc : contexts[i]? = some c) :
    ∃ j c' b, contexts[j]? = some c' ∧ l.births[j]? = some b ∧ b.origin.IsFirst ∧
      c'.token = c.token ∧ l.IsSame j i := by
  induction i using Nat.strongRecOn generalizing c with
  | _ i ih =>
    obtain ⟨b, hb⟩ := h.exists_birth hc
    have hstems := (h.stems hc hb).2.2
    cases horigin : b.origin with
    | background => exact ⟨i, c, b, hc, hb, horigin ▸ trivial, rfl, .refl _⟩
    | childOf p => exact ⟨i, c, b, hc, hb, horigin ▸ trivial, rfl, .refl _⟩
    | cloneOf j =>
      rw [horigin] at hstems
      obtain ⟨j', c', b', hc', hb', hfirst, htoken, hsame⟩ := ih j hstems.1 hstems.2
      have hi : l.origin? i = some (.cloneOf j) := by
        rw [origin?, hb, Option.map_some, horigin]
      exact ⟨j', c', b', hc', hb', hfirst, htoken, hsame.trans _ _ _ (.rel _ _ hi)⟩

/-- Of two contexts with one token the one `IsSame` as the other. -/
theorem isSame_of_token_eq (h : Lineage tree contexts l.births) (hcx : contexts[x]? = some cx)
    (hc : contexts[i]? = some c) (htoken : cx.token = c.token) : l.IsSame x i := by
  obtain ⟨j, cj, b, hcj, hb, hfirst, hj, hsame⟩ := h.exists_first hcx
  obtain ⟨j', cj', b', hcj', hb', hfirst', hj', hsame'⟩ := h.exists_first hc
  obtain rfl := h.firsts hcj hb hfirst hcj' hb' hfirst' (hj.trans (htoken.trans hj'.symm))
  exact (hsame.symm _ _).trans _ _ _ hsame'

end Lineage

/-- What `Reaches` a context reaches its copies. -/
theorem Pedigree.IsSame.reaches_iff {l : Pedigree} {x i j : Nat} (h : l.IsSame i j) :
    l.Reaches x i ↔ l.Reaches x j := by
  induction h with
  | rel j i hi => exact ⟨fun hr => .clone hr hi, fun hr => .original hr hi⟩
  | refl => exact Iff.rfl
  | symm _ _ _ ih => exact ih.symm
  | trans _ _ _ _ _ ih ih' => exact ih.trans ih'

namespace Lineage

variable {tree tree' : TokenTree} {contexts : List Context} {births : List Birth} {l : Pedigree}
  {x i j : Nat} {c cx : Context}

/-- A context `Reaches` every other whose token descends from its own. -/
theorem reaches_of_descends (h : Lineage tree contexts l.births) (hcx : contexts[x]? = some cx)
    {t : TokenId} (hd : tree.Descends cx.token t) :
    ∀ {i c}, contexts[i]? = some c → c.token = t → l.Reaches x i := by
  induction hd with
  | refl =>
    intro i c hc htoken
    exact (h.isSame_of_token_eq hcx hc htoken.symm).reaches_iff.1 .self
  | @child p t k _ hk hparent hlt ih =>
    intro i c hc htoken
    -- the first among the copies was derived from a context with the parent's token
    obtain ⟨j, cj, b, hcj, hb, hfirst, hj, hsame⟩ := h.exists_first hc
    have htokens : tree.parent? cj.token = some p := by
      rw [hj, htoken, TokenTree.parent?, hk]
      exact hparent
    have hstems := (h.stems hcj hb).2.2
    refine hsame.reaches_iff.1 ?_
    cases horigin : b.origin with
    | background =>
      rw [horigin] at hstems
      exact absurd (htokens.symm.trans hstems) (by simp)
    | childOf q =>
      rw [horigin] at hstems
      obtain ⟨parent, hq, hqtoken, -⟩ := hstems
      have horigin' : l.origin? j = some (.childOf q) := by
        rw [origin?, hb, Option.map_some, horigin]
      exact .child (ih hq (Option.some.inj (hqtoken.symm.trans htokens))) horigin'
    | cloneOf j' =>
      rw [horigin] at hfirst
      exact absurd hfirst id

/-- A cancelation `Reaches` exactly the contexts whose tokens descend from the token of the canceled
one. -/
theorem reaches_iff (h : Lineage tree contexts l.births) (hcx : contexts[x]? = some cx)
    (hc : contexts[i]? = some c) : l.Reaches x i ↔ tree.Descends cx.token c.token := by
  refine ⟨fun hr => ?_, fun hd => h.reaches_of_descends hcx hd hc rfl⟩
  obtain ⟨c', hc', hd⟩ := h.descends_of_reaches hcx hr
  obtain rfl := Option.some.inj (hc.symm.trans hc')
  exact hd

end Lineage

end TaskScheduler
