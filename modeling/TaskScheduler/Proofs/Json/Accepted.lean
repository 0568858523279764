import Mathlib.Data.List.Induction
import Mathlib.Data.String.Basic
import TaskScheduler.Json.Form

/-!
# Values that are read

Whatever a text looks like, the value that is read from it is canonical and is nested no deeper
than the reader allows.  The members of a written object may come in any order and repeat their
keys; they are set one after the other in a list that stays in order, and the last one of a key
remains.
-/

namespace TaskScheduler.Json

/-- A value as readers make it: canonical and not nested too deeply. -/
structure Fits (d : Nat) (v : Json) : Prop where
  /-- The members of every object are in order. -/
  canonical : v.Canonical
  /-- There is room for every level. -/
  depth_le : v.depth ≤ d

/-! ### Members -/

/-- `CanonicalMembers` says that every value of a list of members is canonical. -/
theorem canonicalMembers_iff {ms : List (String × Json)} :
    CanonicalMembers ms ↔ ∀ m ∈ ms, m.2.Canonical := by
  induction ms with
  | nil => simp [CanonicalMembers]
  | cons m ms ih => rw [CanonicalMembers, ih, List.forall_mem_cons]

/-- `depthMembers` is the depth of the deepest value of a list of members. -/
theorem depthMembers_le_iff {d : Nat} {ms : List (String × Json)} :
    depthMembers ms ≤ d ↔ ∀ m ∈ ms, m.2.depth ≤ d := by
  induction ms with
  | nil => simp [depthMembers]
  | cons m ms ih => rw [depthMembers, Nat.max_le, ih, List.forall_mem_cons]

/-- `CanonicalItems` says that every value of a list is canonical. -/
theorem canonicalItems_iff {vs : List Json} : CanonicalItems vs ↔ ∀ v ∈ vs, v.Canonical := by
  induction vs with
  | nil => simp [CanonicalItems]
  | cons v vs ih => rw [CanonicalItems, ih, List.forall_mem_cons]

/-- `depthItems` is the depth of the deepest value of a list. -/
theorem depthItems_le_iff {d : Nat} {vs : List Json} :
    depthItems vs ≤ d ↔ ∀ v ∈ vs, v.depth ≤ d := by
  induction vs with
  | nil => simp [depthItems]
  | cons v vs ih => rw [depthItems, Nat.max_le, ih, List.forall_mem_cons]

/-- `setMember` adds no member but its own. -/
theorem mem_of_mem_setMember {k : String} {v : Json} {m : String × Json}
    {ms : List (String × Json)} (h : m ∈ setMember k v ms) : m = (k, v) ∨ m ∈ ms := by
  induction ms with
  | nil => exact .inl (List.mem_singleton.1 h)
  | cons m' ms ih =>
    unfold setMember at h
    split at h
    next => exact List.mem_cons.1 h
    next =>
      split at h
      next => exact (List.mem_cons.1 h).imp_right (List.mem_cons_of_mem _)
      next =>
        rcases List.mem_cons.1 h with rfl | h
        · exact .inr List.mem_cons_self
        · exact (ih h).imp_right (List.mem_cons_of_mem _)

/-- `setMember` keeps the keys in order. -/
theorem increasing_setMember (k : String) (v : Json) {ms : List (String × Json)}
    (h : Increasing (ms.map Prod.fst)) : Increasing ((setMember k v ms).map Prod.fst) := by
  induction ms with
  | nil => exact ⟨List.forall_mem_nil _, trivial⟩
  | cons m ms ih =>
    obtain ⟨hm, hms⟩ := h
    unfold setMember
    split
    next hlt =>
      refine ⟨List.forall_mem_cons.2 ⟨hlt, fun k' hk' => ?_⟩, hm, hms⟩
      exact String.lt_trans hlt (hm k' hk')
    next hnot =>
      split
      next heq => exact ⟨heq ▸ hm, hms⟩
      next hne =>
        refine ⟨fun k' hk' => ?_, ih hms⟩
        obtain ⟨m', hm', rfl⟩ := List.mem_map.1 hk'
        rcases mem_of_mem_setMember hm' with rfl | hm'
        · exact lt_of_le_of_ne (not_lt.1 hnot) hne
        · exact hm _ (List.mem_map_of_mem hm')

/-- `ofMembers` gives an object whose keys are in order, and which has no member that is not among
the given ones. -/
theorem ofMembers_facts (ms : List (String × Json)) : ∃ ms', ofMembers ms = .obj ms' ∧
    Increasing (ms'.map Prod.fst) ∧ ∀ m ∈ ms', m ∈ ms := by
  refine ⟨_, rfl, ?_⟩
  induction ms using List.reverseRecOn with
  | nil => exact ⟨trivial, List.forall_mem_nil _⟩
  | append_singleton ms m ih =>
    obtain ⟨hincreasing, hmem⟩ := ih
    rw [List.foldl_append, List.foldl_cons, List.foldl_nil]
    refine ⟨increasing_setMember m.1 m.2 hincreasing, fun m' hm' => List.mem_append.2 ?_⟩
    rcases mem_of_mem_setMember hm' with rfl | hm'
    · exact .inr List.mem_cons_self
    · exact .inl (hmem m' hm')

/-! ### Values -/

/-- An array `Fits` one level more than its items do. -/
theorem fits_arr {d : Nat} {vs : List Json} (hd : d ≠ 0) (h : ∀ v ∈ vs, v.Fits (d - 1)) :
    (arr vs).Fits d := by
  have hdepth : depthItems vs ≤ d - 1 := depthItems_le_iff.2 fun v hv => (h v hv).depth_le
  refine ⟨canonicalItems_iff.2 fun v hv => (h v hv).canonical, ?_⟩
  rw [depth]
  omega

/-- An object `Fits` one level more than the values of its members do. -/
theorem fits_ofMembers {d : Nat} {ms : List (String × Json)} (hd : d ≠ 0)
    (h : ∀ m ∈ ms, m.2.Fits (d - 1)) : (ofMembers ms).Fits d := by
  obtain ⟨ms', hobj, hincreasing, hmem⟩ := ofMembers_facts ms
  have hfits : ∀ m ∈ ms', m.2.Fits (d - 1) := fun m hm => h m (hmem m hm)
  have hdepth : depthMembers ms' ≤ d - 1 := depthMembers_le_iff.2 fun m hm => (hfits m hm).depth_le
  rw [hobj]
  refine ⟨⟨hincreasing, canonicalMembers_iff.2 fun m hm => (hfits m hm).canonical⟩, ?_⟩
  rw [depth]
  omega

/-- `NumberForm.value?` gives a whole number or a floating-point number. -/
theorem NumberForm.value?_cases {n : NumberForm} {v : Json} (h : n.value? = some v) :
    (∃ i, v = .int i) ∨ ∃ x, v = .float x := by
  unfold NumberForm.value? at h
  dsimp only at h
  split at h
  next =>
    -- digits alone: kept exactly, unless a negative number is out of range
    split at h
    next =>
      split at h
      next => exact .inr ⟨_, (Option.some.inj h).symm⟩
      next =>
        obtain ⟨i, -, rfl⟩ := Option.map_eq_some_iff.1 h
        exact .inl ⟨i, rfl⟩
    next =>
      obtain ⟨i, -, rfl⟩ := Option.map_eq_some_iff.1 h
      exact .inl ⟨i, rfl⟩
  next =>
    -- with or without an exponent
    split at h
    all_goals
      split at h
      next =>
        split at h
        next => cases h
        next => exact .inr ⟨_, (Option.some.inj h).symm⟩
      next =>
        obtain ⟨x, -, rfl⟩ := Option.map_eq_some_iff.1 h
        exact .inr ⟨_, rfl⟩

mutual

/-- What `Form.value?` reads `Fits` the levels that it was given. -/
theorem Form.fits_of_value? {d : Nat} {f : Form} {v : Json} (h : f.value? d = some v) :
    v.Fits d := by
  match f with
  | .null =>
    obtain rfl := Option.some.inj h
    exact ⟨trivial, Nat.zero_le d⟩
  | .bool b =>
    obtain rfl := Option.some.inj h
    exact ⟨trivial, Nat.zero_le d⟩
  | .num n =>
    rcases NumberForm.value?_cases h with ⟨i, rfl⟩ | ⟨x, rfl⟩
    · exact ⟨trivial, Nat.zero_le d⟩
    · exact ⟨trivial, Nat.zero_le d⟩
  | .str ps =>
    obtain ⟨s, -, rfl⟩ := Option.map_eq_some_iff.1 h
    exact ⟨trivial, Nat.zero_le d⟩
  | .arr fs =>
    rw [Form.value?] at h
    split at h
    next => cases h
    next hd =>
      obtain ⟨vs, hvs, rfl⟩ := Option.map_eq_some_iff.1 h
      exact fits_arr hd (Form.fits_of_values? hvs)
  | .obj ms =>
    rw [Form.value?] at h
    split at h
    next => cases h
    next hd =>
      obtain ⟨vs, hvs, rfl⟩ := Option.map_eq_some_iff.1 h
      exact fits_ofMembers hd (Form.fits_of_memberValues? hvs)

/-- What `Form.values?` reads `Fits` the levels that it was given. -/
theorem Form.fits_of_values? {d : Nat} {fs : List Form} {vs : List Json}
    (h : Form.values? d fs = some vs) : ∀ v ∈ vs, v.Fits d := by
  match fs with
  | [] =>
    obtain rfl := Option.some.inj h
    exact List.forall_mem_nil _
  | f :: fs =>
    rw [Form.values?] at h
    split at h
    next v vs hv hvs =>
      obtain rfl := Option.some.inj h
      exact List.forall_mem_cons.2 ⟨f.fits_of_value? hv, Form.fits_of_values? hvs⟩
    next => cases h

/-- What `Form.memberValues?` reads `Fits` the levels that it was given. -/
theorem Form.fits_of_memberValues? {d : Nat} {ms : List (List Piece × Form)}
    {vs : List (String × Json)} (h : Form.memberValues? d ms = some vs) :
    ∀ m ∈ vs, m.2.Fits d := by
  match ms with
  | [] =>
    obtain rfl := Option.some.inj h
    exact List.forall_mem_nil _
  | (k, f) :: ms =>
    rw [Form.memberValues?] at h
    split at h
    next k v vs hk hv hvs =>
      obtain rfl := Option.some.inj h
      exact List.forall_mem_cons.2 ⟨f.fits_of_value? hv, Form.fits_of_memberValues? hvs⟩
    next => cases h

end

end TaskScheduler.Json
