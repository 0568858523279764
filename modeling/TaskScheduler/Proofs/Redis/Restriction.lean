import TaskScheduler.Proofs.Redis.Commands

/-!
# A store seen through some of its keys

`restrict` keeps the keys of a store that pass a test.  A command names one key, and what it does is
decided by this key and written there.  So a command on a key that passes gives the same on the
restricted store and leaves the restriction of what it leaves on the whole one, and a command on
any other key leaves the restricted store as it is.
-/

namespace TaskScheduler

namespace FiniteMap

variable {κ α : Type} [DecidableEq κ]

/-- To `put` a value at a key that passes a test is to do so among the keys that pass. -/
theorem filter_put_of_pos {p : κ → Bool} {k : κ} (h : p k = true) (v : α) (l : List (κ × α)) :
    (put k v l).filter (fun e => p e.1) = put k v (l.filter fun e => p e.1) := by
  induction l with
  | nil => simp [put, h]
  | cons e rest ih =>
    by_cases he : e.1 = k
    · simp [put, he, h]
    · by_cases hp : p e.1 = true
      · simp [put, he, hp, ih]
      · simp [put, he, hp, ih]

/-- To `put` a value at a key that does not pass a test is not seen among the keys that do. -/
theorem filter_put_of_neg {p : κ → Bool} {k : κ} (h : p k = false) (v : α) (l : List (κ × α)) :
    (put k v l).filter (fun e => p e.1) = l.filter fun e => p e.1 := by
  induction l with
  | nil => simp [put, h]
  | cons e rest ih =>
    by_cases he : e.1 = k
    · simp [put, he, h]
    · simp [put, he, List.filter_cons, ih]

end FiniteMap

namespace Redis.Store

variable {own : Bytes → Bool} {s s' : Store} {key : Bytes}

/-- The keys of a store that pass a test, with what they hold. -/
def restrict (own : Bytes → Bool) (s : Store) : Store := s.filter fun k _ => own k

/-! ### Lookups and changes -/

/-- `restrict` keeps what is found at a key that passes. -/
theorem get?_restrict (s : Store) (h : own key = true) :
    (s.restrict own).get? key = s.get? key := by
  rw [restrict, FiniteMap.get?_filter_key, if_pos h]

/-- `restrict` keeps the hash at a key that passes. -/
theorem hash?_restrict (s : Store) (h : own key = true) :
    (s.restrict own).hash? key = s.hash? key :=
  hash?_congr (get?_restrict s h)

/-- `restrict` keeps the sorted set at a key that passes. -/
theorem zset?_restrict (s : Store) (h : own key = true) :
    (s.restrict own).zset? key = s.zset? key :=
  zset?_congr (get?_restrict s h)

/-- `insert` at a key that passes commutes with `restrict`. -/
theorem restrict_insert_of_pos (s : Store) (h : own key = true) (e : Entry) :
    restrict own (s.insert key e) = (s.restrict own).insert key e :=
  FiniteMap.ext_entries (FiniteMap.filter_put_of_pos h e s.entries)

/-- `insert` at a key that does not pass is not seen in `restrict`. -/
theorem restrict_insert_of_neg (s : Store) (h : own key = false) (e : Entry) :
    restrict own (s.insert key e) = s.restrict own :=
  FiniteMap.ext_entries (FiniteMap.filter_put_of_neg h e s.entries)

/-- `erase` commutes with `restrict`. -/
theorem restrict_erase_of_pos (own : Bytes → Bool) (s : Store) (key : Bytes) :
    restrict own (s.erase key) = (s.restrict own).erase key := by
  refine FiniteMap.ext_entries ?_
  change (s.entries.filter _).filter _ = (s.entries.filter _).filter _
  rw [List.filter_filter, List.filter_filter]
  exact List.filter_congr fun e _ => Bool.and_comm ..

/-- `erase` of a key that does not pass is not seen in `restrict`. -/
theorem restrict_erase_of_neg (s : Store) (h : own key = false) :
    restrict own (s.erase key) = s.restrict own := by
  rw [restrict_erase_of_pos]
  refine FiniteMap.ext_entries (List.filter_eq_self.2 fun e he => ?_)
  have hpass : own e.1 = true := (List.mem_filter.1 he).2
  rw [decide_eq_true_eq]
  rintro rfl
  rw [h] at hpass
  exact Bool.false_ne_true hpass

/-- `replace` at a key that passes commutes with `restrict`. -/
theorem restrict_replace_of_pos (s : Store) (h : own key = true) (v : Value) :
    restrict own (s.replace key v) = (s.restrict own).replace key v := by
  rw [replace_eq, replace_eq]
  split
  · exact restrict_erase_of_pos own s key
  · rw [restrict_insert_of_pos s h, ttl_congr (get?_restrict s h)]

/-- `replace` at a key that does not pass is not seen in `restrict`. -/
theorem restrict_replace_of_neg (s : Store) (h : own key = false) (v : Value) :
    restrict own (s.replace key v) = s.restrict own := by
  rw [replace_eq]
  split
  · exact restrict_erase_of_neg s h
  · exact restrict_insert_of_neg s h _

/-- `lapse` commutes with `restrict`. -/
theorem restrict_lapse (own : Bytes → Bool) (s : Store) (key : Bytes) :
    restrict own (s.lapse key) = (s.restrict own).lapse key := by
  by_cases h : own key = true
  · unfold lapse
    rw [ttl_congr (get?_restrict s h)]
    split
    · exact restrict_erase_of_pos own s key
    · rfl
  · have hnone : (s.restrict own).get? key = none := by
      rw [restrict, FiniteMap.get?_filter_key, if_neg h]
    rw [lapse_eq_self (congrArg (Option.bind · Entry.ttl) hnone)]
    unfold lapse
    split
    · exact restrict_erase_of_neg s (Bool.not_eq_true _ ▸ h)
    · rfl

/-! ### Commands on a key that passes -/

/-- `incr` at a key that passes does in `restrict` what it does in the store. -/
theorem incr_restrict (s : Store) (h : own key = true) :
    (s.restrict own).incr key = (s.incr key).map fun r => (r.1, r.2.restrict own) := by
  unfold incr
  rw [get?_restrict s h]
  dsimp only
  split
  · split
    · exact congrArg (fun t => Except.ok (_, t)) (restrict_replace_of_pos s h _).symm
    · rfl
  · split
    · split
      · split
        · exact congrArg (fun t => Except.ok (_, t)) (restrict_replace_of_pos s h _).symm
        · rfl
      · rfl
    · rfl

/-- `hset` at a key that passes does in `restrict` what it does in the store. -/
theorem hset_restrict (s : Store) (h : own key = true) (fields : List (Bytes × Bytes)) :
    (s.restrict own).hset key fields = (s.hset key fields).map (restrict own) := by
  unfold hset
  rw [hash?_restrict s h]
  split
  · exact congrArg Except.ok (restrict_replace_of_pos s h _).symm
  · rfl

/-- `hget` at a key that passes reads in `restrict` what it reads in the store. -/
theorem hget_restrict (s : Store) (h : own key = true) (field : Bytes) :
    (s.restrict own).hget key field = s.hget key field := by
  unfold hget
  rw [hash?_restrict s h]

/-- `zadd` at a key that passes does in `restrict` what it does in the store. -/
theorem zadd_restrict (s : Store) (h : own key = true) (score : Int) (member : Bytes) :
    (s.restrict own).zadd key score member = (s.zadd key score member).map (restrict own) := by
  unfold zadd
  rw [zset?_restrict s h]
  split
  · exact congrArg Except.ok (restrict_replace_of_pos s h _).symm
  · rfl

/-- `zpopmin` at a key that passes does in `restrict` what it does in the store. -/
theorem zpopmin_restrict (s : Store) (h : own key = true) :
    (s.restrict own).zpopmin key =
      (s.zpopmin key).map (Option.map fun r => (r.1, r.2.restrict own)) := by
  unfold zpopmin
  rw [zset?_restrict s h]
  split
  · rfl
  · exact congrArg (fun t => Except.ok (some (_, t))) (restrict_replace_of_pos s h _).symm
  · rfl

/-- `zrem` at a key that passes does in `restrict` what it does in the store. -/
theorem zrem_restrict (s : Store) (h : own key = true) (member : Bytes) :
    (s.restrict own).zrem key member =
      (s.zrem key member).map fun r => (r.1, r.2.restrict own) := by
  unfold zrem
  rw [zset?_restrict s h]
  split
  · split
    · exact congrArg (fun t => Except.ok (true, t)) (restrict_replace_of_pos s h _).symm
    · rfl
  · rfl

/-- `expire` at a key that passes does in `restrict` what it does in the store. -/
theorem expire_restrict (s : Store) (h : own key = true) (present : Int) (secs : Nat) :
    (s.restrict own).expire present key secs = (s.expire present key secs).map (restrict own) := by
  unfold expire
  rw [get?_restrict s h]
  split
  · rfl
  · split
    · rfl
    · split
      · rfl
      · exact congrArg Except.ok (restrict_insert_of_pos s h _).symm

/-! ### Commands on another key -/

/-- `incr` at a key that does not pass is not seen in `restrict`. -/
theorem restrict_incr {n : Int} (h : own key = false) (hs : s.incr key = .ok (n, s')) :
    s'.restrict own = s.restrict own := by
  rw [eq_replace_of_incr hs]
  exact restrict_replace_of_neg s h _

/-- `hset` at a key that does not pass is not seen in `restrict`. -/
theorem restrict_hset {fields : List (Bytes × Bytes)} (h : own key = false)
    (hs : s.hset key fields = .ok s') : s'.restrict own = s.restrict own := by
  obtain ⟨hash, -, rfl⟩ := eq_replace_of_hset hs
  exact restrict_replace_of_neg s h _

/-- `zadd` at a key that does not pass is not seen in `restrict`. -/
theorem restrict_zadd {score : Int} {member : Bytes} (h : own key = false)
    (hs : s.zadd key score member = .ok s') : s'.restrict own = s.restrict own := by
  obtain ⟨members, rfl⟩ := eq_replace_of_zadd hs
  exact restrict_replace_of_neg s h _

/-- `zpopmin` at a key that does not pass is not seen in `restrict`. -/
theorem restrict_zpopmin {member : Bytes} (h : own key = false)
    (hs : s.zpopmin key = .ok (some (member, s'))) : s'.restrict own = s.restrict own := by
  obtain ⟨members, rfl⟩ := eq_replace_of_zpopmin hs
  exact restrict_replace_of_neg s h _

/-- `zrem` at a key that does not pass is not seen in `restrict`. -/
theorem restrict_zrem {member : Bytes} {found : Bool} (h : own key = false)
    (hs : s.zrem key member = .ok (found, s')) : s'.restrict own = s.restrict own := by
  obtain rfl | ⟨members, rfl⟩ := zrem_cases hs
  · rfl
  · exact restrict_replace_of_neg s h _

/-- `expire` at a key that does not pass is not seen in `restrict`. -/
theorem restrict_expire {present : Int} {secs : Nat} (h : own key = false)
    (hs : s.expire present key secs = .ok s') :
    s'.restrict own = s.restrict own := by
  obtain ⟨-, rfl⟩ | ⟨e, -, rfl⟩ := expire_cases hs
  · rfl
  · exact restrict_insert_of_neg s h _

/-! ### Operations made of commands -/

/-- An operation works on some keys only: whoever sees these keys sees what it does, and whoever
sees none of them sees nothing of it. -/
structure KeepsTo {α : Type} (keys : Bytes → Prop) (f : Store → α × Store) : Prop where
  /-- Among keys that contain its own the operation does what it does in the whole store. -/
  inside : ∀ own : Bytes → Bool, (∀ key, keys key → own key = true) →
    ∀ s, f (s.restrict own) = ((f s).1, (f s).2.restrict own)
  /-- Keys other than its own are left as they are. -/
  outside : ∀ own : Bytes → Bool, (∀ key, keys key → own key = false) →
    ∀ s, (f s).2.restrict own = s.restrict own

section KeepsTo

variable {α β : Type} {keys : Bytes → Prop}

/-- A question about the keys. -/
theorem KeepsTo.ask {f : Store → α}
    (h : ∀ own : Bytes → Bool, (∀ key, keys key → own key = true) → ∀ s, f (s.restrict own) = f s) :
    KeepsTo keys fun s => (f s, s) where
  inside own hown s := congrArg (·, s.restrict own) (h own hown s)
  outside _ _ _ := rfl

/-- One operation after another one, chosen by its answer. -/
theorem KeepsTo.seq {f : Store → α × Store} {g : α → Store → β × Store} (hf : KeepsTo keys f)
    (hg : ∀ a, KeepsTo keys (g a)) : KeepsTo keys fun s => g (f s).1 (f s).2 where
  inside own hown s := by
    rw [hf.inside own hown s]
    exact (hg _).inside own hown _
  outside own hown s := ((hg _).outside own hown _).trans (hf.outside own hown s)

/-- An operation with another form of its answer. -/
theorem KeepsTo.map {f : Store → α × Store} (hf : KeepsTo keys f) (g : α → β) :
    KeepsTo keys fun s => (g (f s).1, (f s).2) :=
  hf.seq (g := fun a s => (g a, s)) fun a => .ask (f := fun _ => g a) fun _ _ _ => rfl

end KeepsTo

end Redis.Store

end TaskScheduler
