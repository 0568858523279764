/-!
# Finite maps

A `FiniteMap κ α` is a list of key-value pairs whose keys are distinct.  It remembers the order in
which keys were first added, so that answers which list the contents of a map have one definite
order.  The lemmas describe every operation through the view `get?`.
-/

namespace TaskScheduler

/-- Key-value pairs with distinct keys, oldest key first. -/
structure FiniteMap (κ α : Type) where
  /-- The pairs, in the order in which their keys were added. -/
  entries : List (κ × α) := []
  /-- No key occurs twice. -/
  nodup : (entries.map Prod.fst).Nodup := by simp

namespace FiniteMap

variable {κ α β : Type}

/-- The map without keys. -/
def empty : FiniteMap κ α := {}

instance : Inhabited (FiniteMap κ α) := ⟨empty⟩

instance : EmptyCollection (FiniteMap κ α) := ⟨empty⟩

/-- Maps are equal as soon as they hold the same pairs in the same order. -/
theorem ext_entries {m m' : FiniteMap κ α} (h : m.entries = m'.entries) : m = m' := by
  cases m
  cases m'
  simpa using h

instance [DecidableEq κ] [DecidableEq α] : DecidableEq (FiniteMap κ α) := fun m m' =>
  decidable_of_iff (m.entries = m'.entries) ⟨ext_entries, fun h => h ▸ rfl⟩

/-- The keys, oldest first. -/
def keys (m : FiniteMap κ α) : List κ := m.entries.map Prod.fst

/-- The values, in the order of their keys. -/
def values (m : FiniteMap κ α) : List α := m.entries.map Prod.snd

/-- The number of keys. -/
def size (m : FiniteMap κ α) : Nat := m.entries.length

/-- Whether there is no key. -/
def isEmpty (m : FiniteMap κ α) : Bool := m.entries.isEmpty

/-- Keep the pairs that pass a test. -/
def filter (p : κ → α → Bool) (m : FiniteMap κ α) : FiniteMap κ α where
  entries := m.entries.filter fun e => p e.1 e.2
  nodup := m.nodup.sublist (List.filter_sublist.map Prod.fst)

section Lookup

variable [DecidableEq κ]

/-- The value in a list of pairs at the first pair with the given key. -/
def find (k : κ) : List (κ × α) → Option α
  | [] => none
  | e :: rest => if e.1 = k then some e.2 else find k rest

/-- Replace the value at a key of a list of pairs, or add a pair at its end. -/
def put (k : κ) (v : α) : List (κ × α) → List (κ × α)
  | [] => [(k, v)]
  | e :: rest => if e.1 = k then (k, v) :: rest else e :: put k v rest

theorem mem_keys_put {k k' : κ} {v : α} {l : List (κ × α)} :
    k' ∈ (put k v l).map Prod.fst ↔ k' = k ∨ k' ∈ l.map Prod.fst := by
  induction l with
  | nil => simp [put]
  | cons e rest ih =>
    by_cases h : e.1 = k
    · simp [put, h]
    · simp only [put, h, if_false, List.map_cons, List.mem_cons, ih]
      constructor
      · rintro (h | h | h) <;> simp [h]
      · rintro (h | h | h) <;> simp [h]

theorem nodup_keys_put {k : κ} {v : α} {l : List (κ × α)} (hl : (l.map Prod.fst).Nodup) :
    ((put k v l).map Prod.fst).Nodup := by
  induction l with
  | nil => simp [put]
  | cons e rest ih =>
    rw [List.map_cons, List.nodup_cons] at hl
    by_cases h : e.1 = k
    · subst h
      simpa [put] using hl
    · have hnot : e.1 ∉ (put k v rest).map Prod.fst := fun hmem =>
        (mem_keys_put.1 hmem).elim h hl.1
      simp only [put, h, if_false, List.map_cons]
      exact List.nodup_cons.2 ⟨hnot, ih hl.2⟩

/-- The value at a key. -/
def get? (m : FiniteMap κ α) (k : κ) : Option α := find k m.entries

/-- Whether a key is present. -/
def contains (m : FiniteMap κ α) (k : κ) : Bool := (m.get? k).isSome

/-- The value at a key, or a default. -/
def getD (m : FiniteMap κ α) (k : κ) (default : α) : α := (m.get? k).getD default

/-- Set the value at a key.  A key that is present keeps its place. -/
def insert (m : FiniteMap κ α) (k : κ) (v : α) : FiniteMap κ α where
  entries := put k v m.entries
  nodup := nodup_keys_put m.nodup

/-- Remove a key. -/
def erase (m : FiniteMap κ α) (k : κ) : FiniteMap κ α := m.filter fun k' _ => k' ≠ k

/-- Set several values, first pair first. -/
def insertMany (m : FiniteMap κ α) (pairs : List (κ × α)) : FiniteMap κ α :=
  pairs.foldl (fun m e => m.insert e.1 e.2) m

/-- The map of a list of pairs, where a later pair wins over an earlier one. -/
def ofList (pairs : List (κ × α)) : FiniteMap κ α := empty.insertMany pairs

/-! ### The view `get?` -/

theorem find_put {k k' : κ} {v : α} {l : List (κ × α)} :
    find k' (put k v l) = if k' = k then some v else find k' l := by
  induction l with
  | nil =>
    by_cases h : k = k'
    · simp [put, find, h]
    · simp [put, find, h, Ne.symm h]
  | cons e rest ih =>
    by_cases h : e.1 = k
    · by_cases h' : k' = k
      · simp [put, find, h, h']
      · simp [put, find, h, h', Ne.symm h']
    · by_cases h' : e.1 = k'
      · have hne : k' ≠ k := fun hk => h (h'.trans hk)
        simp [put, find, h', hne]
      · simp [put, find, h, h', ih]

theorem find_filter {p : κ → Bool} {k : κ} {l : List (κ × α)} :
    find k (l.filter fun e => p e.1) = if p k then find k l else none := by
  induction l with
  | nil => simp [find]
  | cons e rest ih =>
    by_cases hp : p e.1
    · by_cases h : e.1 = k
      · subst h
        simp [find, hp]
      · simp [find, hp, h, ih]
    · by_cases h : e.1 = k
      · subst h
        simp [hp, ih]
      · simp [find, hp, h, ih]

@[simp] theorem get?_empty (k : κ) : (empty : FiniteMap κ α).get? k = none := rfl

theorem get?_insert (m : FiniteMap κ α) (k k' : κ) (v : α) :
    (m.insert k v).get? k' = if k' = k then some v else m.get? k' := find_put

@[simp] theorem get?_insert_self (m : FiniteMap κ α) (k : κ) (v : α) :
    (m.insert k v).get? k = some v := by
  simp [get?_insert]

theorem get?_insert_of_ne (m : FiniteMap κ α) {k k' : κ} (v : α) (h : k' ≠ k) :
    (m.insert k v).get? k' = m.get? k' := by
  simp [get?_insert, h]

/-- Filtering by key alone keeps the values of the keys that pass. -/
theorem get?_filter_key (m : FiniteMap κ α) (p : κ → Bool) (k : κ) :
    (m.filter fun k _ => p k).get? k = if p k then m.get? k else none := find_filter

theorem get?_erase (m : FiniteMap κ α) (k k' : κ) :
    (m.erase k).get? k' = if k' = k then none else m.get? k' := by
  have h := get?_filter_key m (fun k' => decide (k' ≠ k)) k'
  by_cases hk : k' = k
  · simpa [erase, hk] using h
  · simpa [erase, hk] using h

@[simp] theorem get?_erase_self (m : FiniteMap κ α) (k : κ) : (m.erase k).get? k = none := by
  simp [get?_erase]

theorem get?_erase_of_ne (m : FiniteMap κ α) {k k' : κ} (h : k' ≠ k) :
    (m.erase k).get? k' = m.get? k' := by
  simp [get?_erase, h]

theorem get?_of_get?_erase {m : FiniteMap κ α} {k k' : κ} {v : α}
    (h : (m.erase k).get? k' = some v) : m.get? k' = some v := by
  rw [get?_erase] at h
  split at h
  next => exact absurd h (by simp)
  next => exact h

theorem mem_of_find {k : κ} {v : α} {l : List (κ × α)} (h : find k l = some v) : (k, v) ∈ l := by
  induction l with
  | nil => simp [find] at h
  | cons e rest ih =>
    by_cases hk : e.1 = k
    · simp only [find, hk, if_true, Option.some.injEq] at h
      exact List.mem_cons.2 (Or.inl (Prod.ext hk.symm h.symm))
    · exact List.mem_cons_of_mem _ (ih (by simpa [find, hk] using h))

theorem find_of_mem {k : κ} {v : α} {l : List (κ × α)} (hl : (l.map Prod.fst).Nodup)
    (h : (k, v) ∈ l) : find k l = some v := by
  induction l with
  | nil => simp at h
  | cons e rest ih =>
    rw [List.map_cons, List.nodup_cons] at hl
    rcases List.mem_cons.1 h with h | h
    · simp [find, ← h]
    · have hk : e.1 ≠ k := fun hk => hl.1 (hk ▸ List.mem_map.2 ⟨(k, v), h, rfl⟩)
      simp [find, hk, ih hl.2 h]

/-- A map holds a pair exactly when looking up the key gives the value. -/
theorem get?_eq_some_iff (m : FiniteMap κ α) {k : κ} {v : α} :
    m.get? k = some v ↔ (k, v) ∈ m.entries :=
  ⟨mem_of_find, find_of_mem m.nodup⟩

theorem get?_eq_none_iff (m : FiniteMap κ α) {k : κ} : m.get? k = none ↔ k ∉ m.keys := by
  constructor
  · intro h hmem
    obtain ⟨e, he, rfl⟩ := List.mem_map.1 hmem
    rw [(get?_eq_some_iff m).2 he] at h
    exact absurd h (by simp)
  · intro h
    cases hg : m.get? k with
    | none => rfl
    | some v => exact absurd (List.mem_map.2 ⟨_, (get?_eq_some_iff m).1 hg, rfl⟩) h

end Lookup

end FiniteMap

end TaskScheduler
