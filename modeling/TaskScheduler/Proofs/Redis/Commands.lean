import TaskScheduler.Proofs.Number.Literal
import TaskScheduler.Proofs.Text.Hex
import TaskScheduler.Redis.Store

/-!
# What the commands of the store do

Every command is described by what it gives and by the lookups `get?`, `hash?` and `zset?` in the
store afterwards.  A command changes one key, and an empty value cannot be told from a missing key,
so the lookups need no cases.
-/

namespace TaskScheduler

/-- A map without pairs is the empty one. -/
theorem FiniteMap.eq_empty_of_isEmpty {κ α : Type} {m : FiniteMap κ α} (h : m.isEmpty = true) :
    m = .empty :=
  FiniteMap.ext_entries (List.isEmpty_iff.1 h)

namespace FiniteMap

variable {κ α : Type} [DecidableEq κ] {pairs : List (κ × α)} {k : κ}

/-- A map in which a value was set is not empty. -/
theorem isEmpty_insert (m : FiniteMap κ α) (k : κ) (v : α) :
    (m.insert k v).isEmpty = false := by
  have hentries : put k v m.entries ≠ [] := by
    cases m.entries with
    | nil => exact List.cons_ne_nil _ _
    | cons e rest =>
      unfold put
      split
      · exact List.cons_ne_nil _ _
      · exact List.cons_ne_nil _ _
  exact List.isEmpty_eq_false_iff.2 hentries

/-- A map in which some values were set is not empty. -/
theorem isEmpty_insertMany (h : pairs ≠ []) (m : FiniteMap κ α) :
    (m.insertMany pairs).isEmpty = false := by
  induction pairs generalizing m with
  | nil => exact absurd rfl h
  | cons e pairs ih =>
    rcases eq_or_ne pairs [] with rfl | hne
    · exact isEmpty_insert m e.1 e.2
    · exact ih hne (m.insert e.1 e.2)

/-- `insertMany` leaves what stands at names that are not written. -/
theorem get?_insertMany_of_not_mem (h : k ∉ pairs.map Prod.fst) (m : FiniteMap κ α) :
    (m.insertMany pairs).get? k = m.get? k := by
  induction pairs generalizing m with
  | nil => rfl
  | cons e pairs ih =>
    rw [List.map_cons, List.mem_cons, not_or] at h
    exact (ih h.2 _).trans (get?_insert_of_ne m e.2 h.1)

/-- At a name that `insertMany` writes, something that was written is found. -/
theorem exists_get?_insertMany (h : k ∈ pairs.map Prod.fst) (m : FiniteMap κ α) :
    ∃ v, (k, v) ∈ pairs ∧ (m.insertMany pairs).get? k = some v := by
  induction pairs generalizing m with
  | nil => cases h
  | cons e pairs ih =>
    by_cases hk : k ∈ pairs.map Prod.fst
    · obtain ⟨v, hv, hget⟩ := ih hk (m.insert e.1 e.2)
      exact ⟨v, List.mem_cons_of_mem _ hv, hget⟩
    · obtain rfl : k = e.1 := by simpa [hk] using h
      refine ⟨e.2, List.mem_cons_self, ?_⟩
      exact (get?_insertMany_of_not_mem hk _).trans (get?_insert_self m e.1 e.2)

end FiniteMap

namespace Redis.Store

variable {s s' : Store} {key key' : Bytes}

/-! ### One key and all others -/

/-- `hash?` of a key is a matter of this key. -/
theorem hash?_congr (h : s'.get? key = s.get? key) : s'.hash? key = s.hash? key := by
  unfold hash?
  rw [h]

/-- `zset?` of a key is a matter of this key. -/
theorem zset?_congr (h : s'.get? key = s.get? key) : s'.zset? key = s.zset? key := by
  unfold zset?
  rw [h]

/-- `ttl` of a key is a matter of this key. -/
theorem ttl_congr (h : s'.get? key = s.get? key) : ttl s' key = ttl s key := by
  unfold ttl
  rw [h]

/-- A value that is not kept. -/
def isEmptyValue : Value → Bool
  | .string _ => false
  | .hash fields => fields.isEmpty
  | .zset members => members.isEmpty

/-- `replace` puts a value at a key, with the time to live that is there, unless the value is
empty. -/
theorem replace_eq (s : Store) (key : Bytes) (v : Value) :
    s.replace key v = if isEmptyValue v then s.erase key else s.insert key ⟨v, ttl s key⟩ := by
  cases v <;> rfl

/-- `replace` leaves all keys but its own alone. -/
theorem get?_replace_of_ne (v : Value) (h : key' ≠ key) :
    (s.replace key v).get? key' = s.get? key' := by
  rw [replace_eq]
  split
  · exact FiniteMap.get?_erase_of_ne _ h
  · exact FiniteMap.get?_insert_of_ne _ _ h

/-- After `replace` the value is found at its key, unless it is empty. -/
theorem get?_replace (s : Store) (key : Bytes) (v : Value) :
    (s.replace key v).get? key = if isEmptyValue v then none else some ⟨v, ttl s key⟩ := by
  rw [replace_eq]
  split
  · exact FiniteMap.get?_erase_self _ _
  · exact FiniteMap.get?_insert_self _ _ _

/-- After `replace` by a hash, `hash?` finds it. -/
theorem hash?_replace (fields : FiniteMap Bytes Bytes) :
    (s.replace key (.hash fields)).hash? key = .ok fields := by
  unfold hash?
  rw [get?_replace]
  cases h : isEmptyValue (.hash fields) with
  | true => exact congrArg Except.ok (FiniteMap.eq_empty_of_isEmpty h).symm
  | false => rfl

/-- After `replace` by a sorted set, `zset?` finds it. -/
theorem zset?_replace (members : List Scored) :
    (s.replace key (.zset members)).zset? key = .ok members := by
  unfold zset?
  rw [get?_replace]
  cases h : isEmptyValue (.zset members) with
  | true => exact congrArg Except.ok (List.isEmpty_iff.1 h).symm
  | false => rfl

/-- After `replace` at a key without a time to live there is still none. -/
theorem ttl_replace (v : Value) (h : ttl s key = none) : ttl (s.replace key v) key = none := by
  rw [ttl, get?_replace]
  split
  · rfl
  · exact h

/-! ### Commands -/

/-- `hset` sets its fields in the hash that is there. -/
theorem hset_eq {h : FiniteMap Bytes Bytes} (hh : s.hash? key = .ok h)
    (fields : List (Bytes × Bytes)) :
    s.hset key fields = .ok (s.replace key (.hash (h.insertMany fields))) := by
  unfold hset
  rw [hh]

/-- `zadd` puts a member into the sorted set that is there. -/
theorem zadd_eq {members : List Scored} (hz : s.zset? key = .ok members) (score : Int)
    (member : Bytes) :
    s.zadd key score member =
      .ok (s.replace key (.zset (insertScored ⟨Binary64.roundInt score, member⟩
        (members.filter fun x => x.member ≠ member)))) := by
  unfold zadd
  rw [hz]

/-- `zpopmin` takes the first member off the sorted set that is there. -/
theorem zpopmin_cons {x : Scored} {rest : List Scored} (hz : s.zset? key = .ok (x :: rest)) :
    s.zpopmin key = .ok (some (x.member, s.replace key (.zset rest))) := by
  unfold zpopmin
  rw [hz]

/-- `zpopmin` takes nothing off an empty sorted set. -/
theorem zpopmin_nil (hz : s.zset? key = .ok []) : s.zpopmin key = .ok none := by
  unfold zpopmin
  rw [hz]

/-- `zrem` removes a member that is there. -/
theorem zrem_of_mem {members : List Scored} (hz : s.zset? key = .ok members) {member : Bytes}
    (h : ∃ x ∈ members, x.member = member) :
    s.zrem key member =
      .ok (true, s.replace key (.zset (members.filter fun x => x.member ≠ member))) := by
  have hany : (members.any fun x => x.member = member) = true := by simpa using h
  unfold zrem
  rw [hz]
  dsimp only
  rw [if_pos hany]

/-- `zrem` leaves the store if the member is not there. -/
theorem zrem_of_not_mem {members : List Scored} (hz : s.zset? key = .ok members) {member : Bytes}
    (h : ∀ x ∈ members, x.member ≠ member) : s.zrem key member = .ok (false, s) := by
  have hany : ¬ (members.any fun x => x.member = member) = true := by simpa using h
  unfold zrem
  rw [hz]
  dsimp only
  rw [if_neg hany]

/-- `expire` accepts a time to live of at most `maxTtl`, and changes no value. -/
theorem expire_ok {present : Int} {secs : Nat} (h : secs ≤ maxTtl present) (key : Bytes)
    (s : Store) :
    ∃ s', s.expire present key secs = .ok s' ∧ (∀ k, k ≠ key → s'.get? k = s.get? k) ∧
      (s'.get? key).map Entry.value = (s.get? key).map Entry.value := by
  have hsmall : ¬ 2 ^ 63 ≤ secs := by
    unfold maxTtl at h
    omega
  unfold expire
  rw [if_neg hsmall, if_neg (Nat.not_lt.2 h)]
  cases he : s.get? key with
  | none => exact ⟨s, rfl, fun _ _ => rfl, by rw [he]⟩
  | some e =>
    refine ⟨_, rfl, fun k hk => FiniteMap.get?_insert_of_ne _ _ hk, ?_⟩
    rw [FiniteMap.get?_insert_self]
    rfl

/-- `expire` refuses a time to live beyond `maxTtl`. -/
theorem expire_error {present : Int} {secs : Nat} (h : maxTtl present < secs) (key : Bytes)
    (s : Store) : ∃ e, s.expire present key secs = .error e := by
  unfold expire
  rw [if_pos h]
  split
  · exact ⟨_, rfl⟩
  · exact ⟨_, rfl⟩

/-- The time to live of a key ends, if it has one. -/
def lapse (s : Store) (key : Bytes) : Store := if (ttl s key).isSome then s.erase key else s

/-- A key without a time to live does not `lapse`. -/
theorem lapse_eq_self (h : ttl s key = none) : s.lapse key = s := by
  unfold lapse
  rw [h]
  rfl

/-- When a key lapses (`lapse`), no other key changes. -/
theorem get?_lapse_of_ne (h : key' ≠ key) : (s.lapse key).get? key' = s.get? key' := by
  unfold lapse
  split
  · exact FiniteMap.get?_erase_of_ne _ h
  · rfl

/-- A key that lapses keeps its hash or loses it as a whole. -/
theorem hash?_lapse (s : Store) (key : Bytes) :
    (s.lapse key).hash? key = s.hash? key ∨ (s.lapse key).hash? key = .ok .empty := by
  unfold lapse
  split
  · refine .inr ?_
    unfold hash?
    rw [FiniteMap.get?_erase_self]
  · exact .inl rfl

/-- The hash at a key depends on its value only. -/
theorem hash?_of_value (h : (s'.get? key).map Entry.value = (s.get? key).map Entry.value) :
    s'.hash? key = s.hash? key := by
  unfold hash?
  cases he : s.get? key <;> cases he' : s'.get? key <;> simp_all

/-- `insertScored` adds a member to the others. -/
theorem insertScored_perm (x : Scored) (members : List Scored) :
    (insertScored x members).Perm (x :: members) := by
  induction members with
  | nil => exact .refl _
  | cons y rest ih =>
    unfold insertScored
    split
    · exact .refl _
    · exact (ih.cons y).trans (.swap x y rest)

/-- `insertScored` of a new member keeps the members distinct. -/
theorem nodup_insertScored {members : List Scored} (hm : (members.map Scored.member).Nodup)
    {x : Scored} (hx : ∀ y ∈ members, y.member ≠ x.member) :
    ((insertScored x members).map Scored.member).Nodup := by
  rw [((insertScored_perm x members).map _).nodup_iff, List.map_cons, List.nodup_cons]
  refine ⟨fun hmem => ?_, hm⟩
  obtain ⟨y, hy, hyx⟩ := List.mem_map.1 hmem
  exact hx y hy hyx

/-- In a set every member stands beside the others. -/
theorem perm_cons_filter {members : List Scored} (hm : (members.map Scored.member).Nodup)
    {x : Scored} (hx : x ∈ members) :
    members.Perm (x :: members.filter fun y => y.member ≠ x.member) := by
  induction members with
  | nil => exact absurd hx List.not_mem_nil
  | cons y rest ih =>
    rw [List.map_cons, List.nodup_cons] at hm
    rcases List.mem_cons.1 hx with rfl | hx
    · have hrest : ∀ z ∈ rest, z.member ≠ x.member := fun z hz hzx =>
        hm.1 (hzx ▸ List.mem_map_of_mem hz)
      rw [List.filter_cons_of_neg (by simp), List.filter_eq_self.2 (by simpa using hrest)]
    · have hyx : y.member ≠ x.member := fun h => hm.1 (h ▸ List.mem_map_of_mem hx)
      rw [List.filter_cons_of_pos (by simpa using hyx)]
      exact ((ih hm.2 hx).cons y).trans (.swap x y _)

/-! ### What commands leave behind -/

/-- `incr` leaves the text of its new number at the key. -/
theorem eq_replace_of_incr {n : Int} (h : s.incr key = .ok (n, s')) :
    s' = s.replace key (.string (counterText n)) := by
  have hput : ∀ i : Int, (if i + 1 < 2 ^ 63
      then Except.ok (i + 1, s.replace key (.string (counterText (i + 1))))
      else .error StoreError.overflow) = .ok (n, s') →
      s' = s.replace key (.string (counterText n)) := by
    intro i hi
    split at hi
    · obtain ⟨rfl, rfl⟩ := Prod.mk.inj (Except.ok.inj hi)
      rfl
    · exact absurd hi (by simp)
  unfold incr at h
  dsimp only at h
  split at h
  · exact hput _ h
  · split at h
    · split at h
      · exact hput _ h
      · exact absurd h (by simp)
    · exact absurd h (by simp)

/-- `hset` sets its fields in the hash that was there. -/
theorem eq_replace_of_hset {fields : List (Bytes × Bytes)} (h : s.hset key fields = .ok s') :
    ∃ hash, s.hash? key = .ok hash ∧ s' = s.replace key (.hash (hash.insertMany fields)) := by
  unfold hset at h
  split at h
  next hash hhash => exact ⟨hash, hhash, (Except.ok.inj h).symm⟩
  next => exact absurd h (by simp)

/-- `zadd` leaves a sorted set at its key. -/
theorem eq_replace_of_zadd {score : Int} {member : Bytes} (h : s.zadd key score member = .ok s') :
    ∃ members, s' = s.replace key (.zset members) := by
  unfold zadd at h
  split at h
  · exact ⟨_, (Except.ok.inj h).symm⟩
  · exact absurd h (by simp)

/-- `zpopmin` leaves a sorted set at its key. -/
theorem eq_replace_of_zpopmin {member : Bytes} (h : s.zpopmin key = .ok (some (member, s'))) :
    ∃ members, s' = s.replace key (.zset members) := by
  unfold zpopmin at h
  split at h
  · exact absurd h (by simp)
  · obtain ⟨-, rfl⟩ := Prod.mk.inj (Option.some.inj (Except.ok.inj h))
    exact ⟨_, rfl⟩
  · exact absurd h (by simp)

/-- `zrem` leaves a sorted set at its key, or it leaves the store. -/
theorem zrem_cases {member : Bytes} {found : Bool} (h : s.zrem key member = .ok (found, s')) :
    s' = s ∨ ∃ members, s' = s.replace key (.zset members) := by
  unfold zrem at h
  split at h
  · split at h
    · obtain ⟨-, rfl⟩ := Prod.mk.inj (Except.ok.inj h)
      exact .inr ⟨_, rfl⟩
    · obtain ⟨-, rfl⟩ := Prod.mk.inj (Except.ok.inj h)
      exact .inl rfl
  · exact absurd h (by simp)

/-- `expire` sets the time to live of a key that is there, and leaves the store otherwise. -/
theorem expire_cases {present : Int} {secs : Nat} (h : s.expire present key secs = .ok s') :
    s.get? key = none ∧ s' = s ∨
      ∃ e, s.get? key = some e ∧ s' = s.insert key { e with ttl := some secs } := by
  unfold expire at h
  split at h
  · exact absurd h (by simp)
  split at h
  · exact absurd h (by simp)
  split at h
  next hnone => exact .inl ⟨hnone, (Except.ok.inj h).symm⟩
  next e he => exact .inr ⟨e, he, (Except.ok.inj h).symm⟩

/-! ### Times to live -/

/-- `replace` by a value that is not empty changes no `ttl`. -/
theorem ttl_replace_of_kept {v : Value} (h : isEmptyValue v = false) (s : Store)
    (key key' : Bytes) : ttl (s.replace key v) key' = ttl s key' := by
  rcases eq_or_ne key' key with rfl | hne
  · rw [ttl, get?_replace, h]
    rfl
  · exact ttl_congr (get?_replace_of_ne v hne)

/-- `incr` changes no `ttl`. -/
theorem ttl_incr {n : Int} (h : s.incr key = .ok (n, s')) (key' : Bytes) :
    ttl s' key' = ttl s key' := by
  rw [eq_replace_of_incr h]
  exact ttl_replace_of_kept rfl s key key'

/-- `hset` with some fields changes no `ttl`, and its key is there afterwards. -/
theorem ttl_hset {fields : List (Bytes × Bytes)} (hne : fields ≠ [])
    (h : s.hset key fields = .ok s') :
    (s'.get? key).isSome ∧ ∀ key', ttl s' key' = ttl s key' := by
  obtain ⟨hash, -, rfl⟩ := eq_replace_of_hset h
  have hkept : isEmptyValue (.hash (hash.insertMany fields)) = false :=
    FiniteMap.isEmpty_insertMany hne hash
  refine ⟨?_, ttl_replace_of_kept hkept s key⟩
  rw [get?_replace, hkept]
  rfl

/-- `zadd` changes no key but its own. -/
theorem get?_zadd_of_ne {score : Int} {member : Bytes} (h : s.zadd key score member = .ok s')
    (hne : key' ≠ key) : s'.get? key' = s.get? key' := by
  obtain ⟨members, rfl⟩ := eq_replace_of_zadd h
  exact get?_replace_of_ne _ hne

/-- `zpopmin` changes no key but its own. -/
theorem get?_zpopmin_of_ne {member : Bytes} (h : s.zpopmin key = .ok (some (member, s')))
    (hne : key' ≠ key) : s'.get? key' = s.get? key' := by
  obtain ⟨members, rfl⟩ := eq_replace_of_zpopmin h
  exact get?_replace_of_ne _ hne

/-- `zrem` changes no key but its own. -/
theorem get?_zrem_of_ne {member : Bytes} {found : Bool} (h : s.zrem key member = .ok (found, s'))
    (hne : key' ≠ key) : s'.get? key' = s.get? key' := by
  obtain rfl | ⟨members, rfl⟩ := zrem_cases h
  · rfl
  · exact get?_replace_of_ne _ hne

/-- `hset` changes no key but its own. -/
theorem get?_hset_of_ne {fields : List (Bytes × Bytes)} (h : s.hset key fields = .ok s')
    (hne : key' ≠ key) : s'.get? key' = s.get? key' := by
  obtain ⟨hash, -, rfl⟩ := eq_replace_of_hset h
  exact get?_replace_of_ne _ hne

/-- `expire` changes no key but its own. -/
theorem get?_expire_of_ne {present : Int} {secs : Nat} (h : s.expire present key secs = .ok s')
    (hne : key' ≠ key) : s'.get? key' = s.get? key' := by
  obtain ⟨-, rfl⟩ | ⟨e, -, rfl⟩ := expire_cases h
  · rfl
  · exact FiniteMap.get?_insert_of_ne _ _ hne

/-- `expire` sets the `ttl` of its key, if the key is there, and no other. -/
theorem ttl_expire {present : Int} {secs : Nat} (h : s.expire present key secs = .ok s')
    (key' : Bytes) :
    ttl s' key' = if key' = key ∧ (s.get? key).isSome then some secs else ttl s key' := by
  obtain ⟨hnone, rfl⟩ | ⟨e, he, rfl⟩ := expire_cases h
  · rw [hnone, if_neg (by simp)]
  · rw [he]
    rcases eq_or_ne key' key with rfl | hne
    · rw [if_pos ⟨rfl, rfl⟩, ttl, FiniteMap.get?_insert_self]
      rfl
    · rw [if_neg (by simp [hne])]
      exact ttl_congr (FiniteMap.get?_insert_of_ne _ _ hne)

/-- A key with a time to live is gone after `lapse`. -/
theorem get?_lapse_self (h : (ttl s key).isSome) : (s.lapse key).get? key = none := by
  unfold lapse
  rw [if_pos h, FiniteMap.get?_erase_self]

/-! ### The counter -/

/-- `counterText` of a natural number is the list of the codes of its digits. -/
theorem counterText_ofNat (n : Nat) :
    counterText n = (Nat.toDigits 10 n).map fun c => c.toUInt8 := by
  have hneg : ¬ (n : Int) < 0 := by omega
  unfold counterText
  rw [if_neg hneg, List.nil_append, Int.natAbs_natCast]
  refine Bytes.ofString_ofList fun c hc => ?_
  obtain ⟨d, hd, rfl⟩ := Decimal.exists_of_mem_digits hc
  have := (Decimal.digitChar_facts d hd).1
  omega

/-- What the readers make of the code of a decimal digit. -/
theorem digitByte_facts : ∀ d < 10, (Nat.digitChar d).toUInt8.toNat = (Nat.digitChar d).toNat ∧
    (48 ≤ (Nat.digitChar d).toUInt8 && (Nat.digitChar d).toUInt8 ≤ 57) = true ∧
    (Nat.digitChar d).toUInt8 ≠ 45 ∧
    ((Nat.digitChar d).toUInt8 = 48 → Nat.digitChar d = '0') := by
  decide

/-- `counterValue?` reads a number of 63 bits back from its `counterText`. -/
theorem counterValue?_counterText {n : Nat} (h : n < 2 ^ 63) :
    counterValue? (counterText n) = some (n : Int) := by
  have hdigit : ∀ c ∈ Nat.toDigits 10 n, ∃ d < 10, c = Nat.digitChar d :=
    fun c hc => Decimal.exists_of_mem_digits hc
  have hall : ((Nat.toDigits 10 n).map fun c => c.toUInt8).all
      (fun d => 48 ≤ d && d ≤ 57) = true := by
    rw [List.all_map, List.all_eq_true]
    intro c hc
    obtain ⟨d, hd, rfl⟩ := hdigit c hc
    exact (digitByte_facts d hd).2.1
  have hfold : ((Nat.toDigits 10 n).map fun c => c.toUInt8).foldl
      (fun n d => 10 * n + (d.toNat - 48)) 0 = n := by
    have hcodes : ((Nat.toDigits 10 n).map fun c => c.toUInt8).map (fun d => d.toNat - 48) =
        (Nat.toDigits 10 n).map fun c => c.toNat - 48 := by
      rw [List.map_map]
      refine List.map_congr_left fun c hc => ?_
      obtain ⟨d, hd, rfl⟩ := hdigit c hc
      exact congrArg (· - 48) (digitByte_facts d hd).1
    have hvalue := Decimal.foldl_digits n
    rw [← List.foldl_map (f := fun c : Char => c.toNat - 48) (g := fun n k => 10 * n + k)] at hvalue
    rw [← List.foldl_map (f := fun d : UInt8 => d.toNat - 48) (g := fun n k => 10 * n + k), hcodes,
      hvalue]
  have hzero : ¬ (((Nat.toDigits 10 n).map fun c => c.toUInt8).head? = some 48 ∧
      (((Nat.toDigits 10 n).map fun c => c.toUInt8) ≠ [48] ∨ false = true)) := by
    rintro ⟨hhead, hne⟩
    rw [List.head?_map, Option.map_eq_some_iff] at hhead
    obtain ⟨c, hc, h48⟩ := hhead
    obtain ⟨d, hd, rfl⟩ := hdigit c (List.mem_of_mem_head? hc)
    rw [(digitByte_facts d hd).2.2.2 h48] at hc
    obtain rfl := Decimal.eq_zero_of_head? hc
    rcases hne with hne | hne
    · exact hne (by decide)
    · exact absurd hne (by decide)
  have hne : ((Nat.toDigits 10 n).map fun c => c.toUInt8) ≠ [] := by
    rw [Ne, List.map_eq_nil_iff]
    exact Nat.toDigits_ne_nil
  rw [counterText_ofNat]
  unfold counterValue?
  split
  next negative digits hsplit =>
    split at hsplit
    next rest hminus =>
      have hmem : (45 : UInt8) ∈ (Nat.toDigits 10 n).map fun c => c.toUInt8 := by
        rw [hminus]
        exact List.mem_cons_self
      obtain ⟨c, hc, h45⟩ := List.mem_map.1 hmem
      obtain ⟨d, hd, rfl⟩ := hdigit c hc
      exact absurd h45 (digitByte_facts d hd).2.2.1
    next =>
      obtain ⟨rfl, rfl⟩ := Prod.mk.inj hsplit
      dsimp only
      rw [hfold, if_neg (by simp [hne, hall]), if_neg hzero]
      simp only [Bool.false_eq_true, if_false]
      rw [if_pos (by omega)]

/-- The entry of a counter after some steps: none at first, and then the text of their number. -/
def IsCounter (s : Store) (key : Bytes) (n : Nat) : Prop :=
  (s.get? key).map Entry.value = if n = 0 then none else some (.string (counterText n))

/-- What a key `IsCounter` of is a matter of this key. -/
theorem IsCounter.congr {n : Nat} (hc : IsCounter s key n) (h : s'.get? key = s.get? key) :
    IsCounter s' key n := by
  unfold IsCounter at hc ⊢
  rw [h, hc]

/-- `incr` takes a counter up by one, as long as the number has 63 bits. -/
theorem IsCounter.incr {n : Nat} (hc : IsCounter s key n) (h : n + 1 < 2 ^ 63) :
    s.incr key = .ok ((n + 1 : Nat), s.replace key (.string (counterText (n + 1 : Nat)))) ∧
      IsCounter (s.replace key (.string (counterText (n + 1 : Nat)))) key (n + 1) := by
  constructor
  · unfold IsCounter at hc
    unfold Store.incr
    split at hc
    next h0 =>
      subst h0
      rw [Option.map_eq_none_iff] at hc
      rw [hc]
      rfl
    next h0 =>
      rw [Option.map_eq_some_iff] at hc
      obtain ⟨e, he, hv⟩ := hc
      rw [he]
      dsimp only
      rw [hv]
      dsimp only
      rw [counterValue?_counterText (by omega)]
      dsimp only
      rw [if_pos (by omega)]
      rfl
  · unfold IsCounter
    rw [get?_replace]
    rfl

/-- `incr` fails on a counter at the greatest number of 63 bits. -/
theorem IsCounter.incr_overflow (hc : IsCounter s key (2 ^ 63 - 1)) :
    s.incr key = .error .overflow := by
  unfold IsCounter at hc
  rw [if_neg (by decide), Option.map_eq_some_iff] at hc
  obtain ⟨e, he, hv⟩ := hc
  unfold Store.incr
  rw [he]
  dsimp only
  rw [hv]
  dsimp only
  rw [counterValue?_counterText (by decide)]
  rfl

end Redis.Store

end TaskScheduler
