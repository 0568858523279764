import TaskScheduler.Proofs.Context.Ending

/-!
# How long a reason lasts

A context does not store why it has ended.  It is asked, and then looks at the clock and at its
token, the clock first.  Both only go one way: the clock goes on, and a canceled token stays so.
Hence a context that has ended stays ended, and `DeadlineExceeded` is its answer for good.

`Canceled` is not.  A deadline is fixed when a context is derived, and a cancelation does not take
it away; once it has passed, a context that was canceled before says that it ran out of time.  So
the answer of a canceled context lasts exactly if it has no deadline.
-/

namespace TaskScheduler

open Pedigree

/-! ### Copies -/

/-- In a `Lineage` a context and its copies are equal. -/
theorem Lineage.getElem?_eq {tree : TokenTree} {contexts : List Context} {l : Pedigree} {i j : Nat}
    (h : Lineage tree contexts l.births) (hsame : l.IsSame i j) : contexts[i]? = contexts[j]? := by
  induction hsame with
  | rel j i hi =>
    obtain ⟨c, hc, -, hc'⟩ := h.stems_of_origin hi
    rw [hc, hc']
  | refl => rfl
  | symm _ _ _ ih => exact ih.symm
  | trans _ _ _ _ _ ih ih' => exact ih.trans ih'

namespace ContextStore

/-- `fireDue` leaves the clock alone. -/
theorem now_fireDue (s : ContextStore) (kept rest : List Timer) :
    (s.fireDue kept rest).now = s.now := by
  rcases s.fireDue_cases kept rest with h | ⟨before, t, rest', -, -, h⟩
  · rw [h]
  · rw [h]
    rfl

/-- `childOf` leaves the clock alone. -/
theorem now_childOf (s : ContextStore) (parent : TokenId) (timeout : Option Duration) :
    (s.childOf parent timeout).2.now = s.now := by
  rw [s.childOf_eq parent timeout rfl]

end ContextStore

namespace ContextRun

variable {r r' r'' : ContextRun}

/-! ### What later steps leave -/

/-- Contexts are added, tokens are added and canceled, and the clock goes on. -/
structure Precedes (r r' : ContextRun) : Prop where
  /-- Contexts keep their places. -/
  contexts : r.contexts <+: r'.contexts
  /-- Tokens stay, and stay canceled. -/
  tree : r.store.tree.Grows r'.store.tree
  /-- The clock goes on. -/
  now : r.store.now ≤ r'.store.now

namespace Precedes

/-- Every run `Precedes` itself. -/
protected theorem refl (r : ContextRun) : r.Precedes r :=
  ⟨List.prefix_rfl, .rfl, Nat.le_refl _⟩

/-- `Precedes` is transitive. -/
theorem trans (h : r.Precedes r') (h' : r'.Precedes r'') : r.Precedes r'' :=
  ⟨h.contexts.trans h'.contexts, h.tree.trans h'.tree, Nat.le_trans h.now h'.now⟩

/-- A context keeps its number in every run that its own `Precedes`. -/
theorem getElem? (h : r.Precedes r') {i : Nat} {c : Context} (hc : r.contexts[i]? = some c) :
    r'.contexts[i]? = some c := by
  obtain ⟨rest, hrest⟩ := h.contexts
  have hlt : i < r.contexts.length := (List.getElem?_eq_some_iff.1 hc).1
  rw [← hrest, List.getElem?_append_left hlt, hc]

end Precedes

/-- Every run `Precedes` what a step makes of it. -/
theorem precedes_step (r : ContextRun) (a : ContextStep) : r.Precedes (r.step a) := by
  cases a with
  | background => exact ⟨List.prefix_append .., r.store.tree.grows_addRoot, Nat.le_refl _⟩
  | childOf p timeout =>
    unfold step
    dsimp only
    split
    next => exact .refl r
    next parent _ =>
      exact ⟨List.prefix_append .., r.store.grows_childOf parent.token timeout,
        Nat.le_of_eq (r.store.now_childOf parent.token timeout).symm⟩
  | clone i =>
    unfold step
    dsimp only
    split
    next => exact .refl r
    next => exact ⟨List.prefix_append .., .rfl, Nat.le_refl _⟩
  | cancel i =>
    unfold step
    dsimp only
    split
    next => exact .refl r
    next c _ => exact ⟨List.prefix_rfl, r.store.tree.grows_cancel c.token, Nat.le_refl _⟩
  | advance span => exact ⟨List.prefix_rfl, .rfl, Nat.le_max_left _ _⟩
  | fire place =>
    exact ⟨List.prefix_rfl, r.store.grows_fireDue _ _, Nat.le_of_eq (r.store.now_fireDue _ _).symm⟩

/-- The run of a history `Precedes` that of the history with later steps. -/
theorem precedes_after (steps later : List ContextStep) :
    (after steps).Precedes (after (steps ++ later)) := by
  have hrun : ∀ r : ContextRun, r.Precedes (later.foldl step r) := by
    induction later with
    | nil => exact .refl
    | cons a later ih => exact fun r => (r.precedes_step a).trans (ih (r.step a))
  rw [after, after, List.foldl_append]
  exact hrun _

/-! ### Reasons -/

/-- Why a context has ended, if it has, when it is asked by its number. -/
def err? (r : ContextRun) (i : Nat) : Option TaskError := r.contexts[i]?.bind r.store.err

variable {l : Pedigree} {i j : Nat} {e : TaskError}

namespace Reflects

/-- If `err?` gives an answer for a number, there is a context of this number that is past its
deadline or else canceled. -/
theorem err?_eq (h : r.Reflects l) (he : r.err? i = some e) :
    ∃ c, r.contexts[i]? = some c ∧ (e = .deadlineExceeded ∧ l.IsOverdue i ∨
      e = .canceled ∧ ¬ l.IsOverdue i ∧ r.store.isCanceled c.token = true) := by
  obtain ⟨c, hc, herr⟩ := Option.bind_eq_some_iff.1 he
  obtain ⟨hoverdue, hcanceled, hnone⟩ := h.err_eq hc
  refine ⟨c, hc, ?_⟩
  by_cases hpassed : l.IsOverdue i
  · have hsame := hoverdue.2 hpassed
    exact .inl ⟨Option.some.inj (herr.symm.trans hsame), hpassed⟩
  · cases hb : r.store.isCanceled c.token with
    | true =>
      have hsame := hcanceled.2 ⟨hpassed, hb⟩
      exact .inr ⟨Option.some.inj (herr.symm.trans hsame), hpassed, rfl⟩
    | false => exact absurd (herr.symm.trans (hnone.2 ⟨hpassed, hb⟩)) (by simp)

/-- `err?` gives the same answer for copies. -/
theorem err?_eq_of_isSame (h : r.Reflects l) (hsame : l.IsSame i j) : r.err? i = r.err? j := by
  rw [err?, err?, h.lineage.getElem?_eq hsame]

/-- A context that has ended says later that it ran out of time if by then it `IsOverdue`, and else
what it said before. -/
theorem err?_later (h : r.Reflects l) {l' : Pedigree} (h' : r'.Reflects l') (hr : r.Precedes r')
    (he : r.err? i = some e) :
    (l'.IsOverdue i → r'.err? i = some .deadlineExceeded) ∧
      (¬ l'.IsOverdue i → r'.err? i = some e) := by
  obtain ⟨c, hc, hcases⟩ := h.err?_eq he
  have hc' : r'.contexts[i]? = some c := hr.getElem? hc
  obtain ⟨hoverdue, hcanceled, -⟩ := h'.err_eq hc'
  have herr : r'.err? i = r'.store.err c := by rw [err?, hc', Option.bind_some]
  refine ⟨fun hpassed => herr.trans (hoverdue.2 hpassed), fun hahead => ?_⟩
  rcases hcases with ⟨-, hbefore⟩ | ⟨rfl, -, htoken⟩
  · -- what is past its deadline stays so
    obtain ⟨d, hd, hle⟩ := (h.isOverdue_iff hc).1 hbefore
    exact absurd ((h'.isOverdue_iff hc').2 ⟨d, hd, Nat.le_trans hle hr.now⟩) hahead
  · exact herr.trans (hcanceled.2 ⟨hahead, hr.tree.isCanceled htoken⟩)

end Reflects

/-- What a context says of its end it says for good, and so do its copies. -/
def KeepsReason (steps : List ContextStep) (i : Nat) (e : TaskError) : Prop :=
  ∀ (later : List ContextStep) (j : Nat), (Pedigree.after (steps ++ later)).IsSame i j →
    (after (steps ++ later)).err? j = some e

/-- Contexts are made, derived, copied and canceled in any order, time passes, and timers fire in
any order.  A context that has ended stays ended, and so do its copies, those that are made later
included: they go on to give the same reason until the deadline of the context has passed, and
from then on say that it did.  So a reason lasts exactly if it is the deadline or there is no
deadline. -/
theorem keepsReason_iff (steps : List ContextStep) (i : Nat) (e : TaskError)
    (he : (after steps).err? i = some e) :
    (∀ (later : List ContextStep) (j : Nat), (Pedigree.after (steps ++ later)).IsSame i j →
      ((Pedigree.after (steps ++ later)).IsOverdue i →
        (after (steps ++ later)).err? j = some .deadlineExceeded) ∧
      (¬ (Pedigree.after (steps ++ later)).IsOverdue i →
        (after (steps ++ later)).err? j = some e)) ∧
    (KeepsReason steps i e ↔
      e = .deadlineExceeded ∨ ∃ c, (after steps).contexts[i]? = some c ∧ c.deadline = none) := by
  have h := reflects_after steps
  have hlater : ∀ (later : List ContextStep) (j : Nat),
      (Pedigree.after (steps ++ later)).IsSame i j →
      ((Pedigree.after (steps ++ later)).IsOverdue i →
        (after (steps ++ later)).err? j = some .deadlineExceeded) ∧
      (¬ (Pedigree.after (steps ++ later)).IsOverdue i →
        (after (steps ++ later)).err? j = some e) := by
    intro later j hsame
    have h' := reflects_after (steps ++ later)
    rw [← h'.err?_eq_of_isSame hsame]
    exact h.err?_later h' (precedes_after steps later) he
  refine ⟨hlater, fun hkeeps => ?_, fun hcases later j hsame => ?_⟩
  · obtain ⟨c, hc, hreason⟩ := h.err?_eq he
    rcases hreason with ⟨rfl, -⟩ | ⟨rfl, -, -⟩
    · exact .inl rfl
    · refine .inr ⟨c, hc, ?_⟩
      cases hd : c.deadline with
      | none => rfl
      | some d =>
        -- let the time pass that is left, and ask again
        have h' := reflects_after (steps ++ [.advance d])
        have hprecedes := precedes_after steps [.advance d]
        have hnow : d ≤ (after (steps ++ [.advance d])).store.now := by
          rw [after, List.foldl_append]
          exact Nat.le_trans (Nat.le_add_left d _) (Nat.le_max_right _ _)
        have hoverdue := (h'.isOverdue_iff (hprecedes.getElem? hc)).2 ⟨d, hd, hnow⟩
        have hchanged := (hlater [.advance d] i (.refl i)).1 hoverdue
        have hkept := hkeeps [.advance d] i (.refl i)
        exact absurd (hkept.symm.trans hchanged) (by simp)
  · have h' := reflects_after (steps ++ later)
    obtain ⟨hpassed, hahead⟩ := hlater later j hsame
    by_cases hoverdue : (Pedigree.after (steps ++ later)).IsOverdue i
    · rcases hcases with rfl | ⟨c, hc, hnone⟩
      · exact hpassed hoverdue
      · have hc' := (precedes_after steps later).getElem? hc
        obtain ⟨d, hd, -⟩ := (h'.isOverdue_iff hc').1 hoverdue
        exact absurd (hnone.symm.trans hd) (by simp)
    · exact hahead hoverdue

/-- A context with ten milliseconds is canceled at once. -/
def canceledEarly : List ContextStep :=
  [.background, .childOf 0 (some (.ofMillis 10)), .cancel 1]

/-- `keepsReason_iff` for `canceledEarly`: the context says `canceled` at first, and does not keep
this reason when its deadline has passed. -/
theorem keepsReason_iff_canceledEarly :
    (after canceledEarly).err? 1 = some .canceled ∧ ¬ KeepsReason canceledEarly 1 .canceled := by
  have he : (after canceledEarly).err? 1 = some .canceled := by decide
  refine ⟨he, fun hkeeps => ?_⟩
  rcases (keepsReason_iff canceledEarly 1 .canceled he).2.1 hkeeps with hsame | ⟨c, hc, hnone⟩
  · exact absurd hsame (by simp)
  · obtain rfl : _ = c := Option.some.inj hc
    exact absurd hnone (by decide)

/-- In `canceledEarly` the context says that it was canceled, and ten milliseconds later that it ran
out of time. -/
theorem exists_not_keepsReason :
    (after canceledEarly).err? 1 = some .canceled ∧
      (after (canceledEarly ++ [.advance 10000000])).err? 1 = some .deadlineExceeded ∧
      ¬ ∀ (steps : List ContextStep) (i : Nat) (e : TaskError), (after steps).err? i = some e →
        KeepsReason steps i e := by
  have he : (after canceledEarly).err? 1 = some .canceled := by decide
  have hlater : (after (canceledEarly ++ [.advance 10000000])).err? 1 = some .deadlineExceeded := by
    decide
  refine ⟨he, hlater, fun hall => ?_⟩
  have hkept := hall canceledEarly 1 .canceled he [.advance 10000000] 1 (.refl 1)
  exact absurd (hkept.symm.trans hlater) (by simp)

end ContextRun

end TaskScheduler
