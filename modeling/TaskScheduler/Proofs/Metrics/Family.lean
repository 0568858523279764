import Mathlib.Data.List.Count
import TaskScheduler.Metrics.Family

/-!
# What a family of metrics has counted

A `Family` is told label values one after the other, each time with their key.  `Family.Counts` says
what its children have counted in all: the child under a key has counted all label values with that
key, whatever they are.  As long as different label values have different keys,
`LabelKey.Separates`, that is one child for each of them, and `Family.Counts.value?` reads their
number off the family.
-/

namespace TaskScheduler

/-- Different label values in the list have different keys. -/
def LabelKey.Separates (key : LabelKey) (seen : List (List String)) : Prop :=
  ∀ l ∈ seen, ∀ l' ∈ seen, key l = key l' → l = l'

namespace Family

variable {α : Type} {f : Family α} {key : LabelKey} {count : α → UInt64}
  {seen seen' : List (List String)}

/-- The family was told of the label values `seen`, where `count` is how often a child was told. -/
structure Counts (f : Family α) (key : LabelKey) (count : α → UInt64)
    (seen : List (List String)) : Prop where
  /-- The child under a key was told of the label values with this key, a missing one of none. -/
  total : ∀ k, ((f.children.get? k).map fun child => count child.2).getD 0 =
    .ofNat (seen.countP fun l => key l = k)
  /-- A child shows label values that it was told of. -/
  shown : ∀ k child, f.children.get? k = some child → child.1 ∈ seen ∧ key child.1 = k
  /-- All label values have a child. -/
  known : ∀ l ∈ seen, (f.children.get? (key l)).isSome = true

/-- A new family `Counts` nothing. -/
theorem counts_nil : ({} : Family α).Counts key count [] where
  total _ := rfl
  shown _ _ h := absurd h (by simp [FiniteMap.get?, FiniteMap.empty, FiniteMap.find])
  known _ h := absurd h List.not_mem_nil

/-- What a family `Counts` does not depend on the order in which it was told. -/
theorem Counts.perm (h : f.Counts key count seen) (hperm : seen.Perm seen') :
    f.Counts key count seen' where
  total k := (h.total k).trans (congrArg UInt64.ofNat (hperm.countP_eq _))
  shown k child hchild := (h.shown k child hchild).imp_left hperm.mem_iff.1
  known l hl := h.known l (hperm.mem_iff.2 hl)

/-- `Family.update` tells the family of one more combination of label values. -/
theorem Counts.update {new : α} {change : α → α} (h : f.Counts key count seen)
    (hnew : count new = 0) (hchange : ∀ a, count (change a) = count a + 1) (l : List String) :
    (f.update (key l) l new change).Counts key count (l :: seen) where
  total k := by
    have hold := h.total k
    unfold Family.update FiniteMap.getD
    dsimp only
    rw [FiniteMap.get?_insert, List.countP_cons]
    by_cases hk : k = key l
    · subst hk
      simp only [if_true, decide_true, Option.map_some, Option.getD_some, hchange, UInt64.ofNat_add]
      cases hchild : f.children.get? (key l) with
      | none =>
        rw [hchild] at hold
        rw [Option.getD_none, hnew]
        exact congrArg (· + 1) hold
      | some child =>
        rw [hchild] at hold
        exact congrArg (· + 1) hold
    · simp only [if_neg hk, hold, decide_eq_false (Ne.symm hk)]
      rfl
  shown k child hchild := by
    unfold Family.update at hchild
    dsimp only at hchild
    rw [FiniteMap.get?_insert] at hchild
    split at hchild
    next hk =>
      obtain rfl := Option.some.inj hchild
      unfold FiniteMap.getD
      cases hold : f.children.get? (key l) with
      | none => exact ⟨List.mem_cons_self, hk.symm⟩
      | some child =>
        obtain ⟨hmem, hkey⟩ := h.shown _ _ hold
        exact ⟨List.mem_cons_of_mem _ hmem, hkey.trans hk.symm⟩
    next => exact (h.shown k child hchild).imp_left (List.mem_cons_of_mem _)
  known l' hl' := by
    unfold Family.update
    dsimp only
    rw [FiniteMap.get?_insert]
    split
    next => rfl
    next hk =>
      refine h.known l' ((List.mem_cons.1 hl').resolve_left fun heq => ?_)
      exact hk (congrArg key heq)

/-- If the key `Separates` the label values that were seen, `Family.value?` shows for each
combination how often the family was told of it. -/
theorem Counts.value? (h : f.Counts key count seen) (hkey : key.Separates seen)
    (l : List String) : ((f.value? l).map count).getD 0 = .ofNat (seen.count l) := by
  have hentry {k : UInt64} {child : List String × α} :
      f.children.get? k = some child ↔ (k, child) ∈ f.children.entries :=
    f.children.get?_eq_some_iff
  unfold Family.value?
  cases hfind : f.series.find? (fun child => child.1 = l) with
  | none =>
    have hnone : l ∉ seen := by
      intro hl
      obtain ⟨child, hchild⟩ := Option.isSome_iff_exists.1 (h.known l hl)
      obtain ⟨hmem, hsame⟩ := h.shown _ _ hchild
      have hseries : child ∈ f.series := List.mem_map.2 ⟨_, hentry.1 hchild, rfl⟩
      have hne := List.find?_eq_none.1 hfind child hseries
      exact hne (decide_eq_true (hkey _ hmem _ hl hsame))
    rw [List.count_eq_zero_of_not_mem hnone]
    rfl
  | some child =>
    have hlabels : child.1 = l := by simpa using List.find?_some hfind
    obtain ⟨⟨k, shown⟩, hmem, rfl⟩ := List.mem_map.1 (List.mem_of_find?_eq_some hfind)
    have hchild := hentry.2 hmem
    obtain ⟨hseen, rfl⟩ := h.shown _ _ hchild
    have htotal := h.total (key shown.1)
    rw [hchild] at htotal
    refine htotal.trans (congrArg UInt64.ofNat ?_)
    refine List.countP_congr fun l' hl' => ?_
    rw [decide_eq_true_iff, beq_iff_eq, ← hlabels]
    exact ⟨hkey l' hl' _ hseen, congrArg key⟩

end Family

end TaskScheduler
