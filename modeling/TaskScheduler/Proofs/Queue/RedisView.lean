import Mathlib.Logic.Function.Basic
import TaskScheduler.Proofs.Redis.Commands
import TaskScheduler.Queue.Redis

/-!
# The queue in Redis seen through its keys

A store shows a queue as a counter, the members of the sorted set and one hash for every task; a
hash without fields is a missing key.  Every operation is described by its answer and by what the
store shows afterwards, so nothing that is proved about several operations looks at commands or
keys.
-/

namespace TaskScheduler.RedisQueue

open Redis

variable {q q' : RedisQueue} {s s' : Store} {n : Nat} {members : List Scored}
  {hash : String → FiniteMap Bytes Bytes}

/-! ### Keys -/

/-- `taskKey` gives different tasks different keys. -/
theorem taskKey_injective : Function.Injective q.taskKey := by
  intro id id' h
  exact (String.append_right_inj _).1 (Bytes.ofString_injective h)

/-- The `taskKey` of a task is told from another key of the queue by the letter after the colon. -/
theorem taskKey_ne {name : String} (hname : name.toList[1]? ≠ some 't') (id : String) :
    q.taskKey id ≠ Bytes.ofString (q.config.keyPrefix ++ name) := by
  intro h
  have htext := Bytes.ofString_injective h
  rw [String.append_assoc, String.append_right_inj] at htext
  rw [← htext, String.toList_append] at hname
  exact hname rfl

/-- The key of a task is not the key of the sorted set. -/
theorem taskKey_ne_queueKey (id : String) : q.taskKey id ≠ q.queueKey := taskKey_ne (by decide) id

/-- The key of a task is not the key of the counter. -/
theorem taskKey_ne_seqKey (id : String) : q.taskKey id ≠ q.seqKey := taskKey_ne (by decide) id

/-- The sorted set and the counter have different keys. -/
theorem queueKey_ne_seqKey : q.queueKey ≠ q.seqKey := by
  intro h
  have htext := Bytes.ofString_injective h
  rw [String.append_right_inj] at htext
  exact absurd htext (by decide)

/-- Clients with one prefix have one counter. -/
theorem seqKey_of_keyPrefix (hq : q'.config.keyPrefix = q.config.keyPrefix) :
    q'.seqKey = q.seqKey := by
  unfold seqKey
  rw [hq]

/-- Clients with one prefix have one sorted set. -/
theorem queueKey_of_keyPrefix (hq : q'.config.keyPrefix = q.config.keyPrefix) :
    q'.queueKey = q.queueKey := by
  unfold queueKey
  rw [hq]

/-- Clients with one prefix have the same keys for tasks. -/
theorem taskKey_of_keyPrefix (hq : q'.config.keyPrefix = q.config.keyPrefix) :
    q'.taskKey = q.taskKey := by
  funext id
  unfold taskKey
  rw [hq]

/-! ### Numbers as members and ids -/

/-- `scriptNumber` keeps whole numbers of up to 53 binary digits. -/
theorem scriptNumber_eq_self {n : Nat} (h : n ≤ 2 ^ 53) : scriptNumber n = n := by
  unfold scriptNumber
  rw [Binary64.roundInt_eq_self (by omega)]
  omega

/-- `scriptRead?` keeps a number that it reads, if it has up to 53 binary digits. -/
theorem scriptRead?_eq {cs : List Char} {n : Nat} (hcs : Hex.readHex? cs = some (false, n))
    (h : n ≤ 2 ^ 53) : scriptRead? cs = some n := by
  unfold scriptRead?
  rw [hcs]
  dsimp only
  rw [if_neg (by omega), if_neg (by decide), scriptNumber_eq_self h]

/-- `memberNumber?` reads a number of up to 53 binary digits back from its `memberText`. -/
theorem memberNumber?_memberText {n : Nat} (h : n ≤ 2 ^ 53) :
    memberNumber? (memberText n) = some n := by
  have hascii : ∀ c ∈ Hex.padded n, c.toNat < 128 :=
    fun c hc => (Hex.isLower_of_mem_padded hc).toNat_lt
  unfold memberNumber? memberText
  rw [Bytes.map_ofNat_ofString hascii]
  exact scriptRead?_eq (Hex.readHex?_padded n) h

/-- `scriptRead?` reads a number of up to 53 binary digits back from its `idText`. -/
theorem scriptRead?_idText {n : Nat} (h : n ≤ 2 ^ 53) : scriptRead? (idText n).toList = some n := by
  have hlist : (idText n).toList = Hex.digits n := String.toList_ofList
  rw [hlist]
  exact scriptRead?_eq (Hex.readHex?_digits n) h

/-- `memberText` gives different numbers different members. -/
theorem memberText_injective : Function.Injective memberText := by
  intro n m h
  have hlist : Hex.padded n = Hex.padded m := by
    simpa using congrArg String.toList (Bytes.ofString_injective h)
  rw [← Hex.value_padded n, hlist, Hex.value_padded]

/-- The `memberText` of numbers of 64 binary digits are ordered as the numbers are. -/
theorem before_memberText_iff {n m : Nat} (hn : n < 2 ^ 64) (hm : m < 2 ^ 64) :
    Bytes.before (memberText n) (memberText m) = true ↔ n < m := by
  have hbytes : ∀ n, memberText n = (Hex.padded n).map fun c => c.toUInt8 := fun n =>
    Bytes.ofString_ofList fun c hc => (Hex.isLower_of_mem_padded hc).toNat_lt
  have hlower : ∀ n, ∀ c ∈ Hex.padded n, Hex.IsLower c := fun _ _ hc => Hex.isLower_of_mem_padded hc
  have hlength : (Hex.padded n).length = (Hex.padded m).length := by
    rw [Hex.length_padded hn, Hex.length_padded hm]
  rw [hbytes, hbytes, Hex.before_iff (hlower _) (hlower _) hlength, Hex.value_padded,
    Hex.value_padded]

/-- `idText` gives different numbers different ids. -/
theorem idText_injective : Function.Injective idText := Hex.ofList_digits_injective

/-! ### What a store shows -/

/-- The store shows the number of pushes, the members of the sorted set and the hashes of the tasks.
The counter and the sorted set do not expire. -/
structure Shows (q : RedisQueue) (s : Store) (n : Nat) (members : List Scored)
    (hash : String → FiniteMap Bytes Bytes) : Prop where
  /-- The counter stands at the number of pushes. -/
  counter : s.IsCounter q.seqKey n
  /-- The sorted set has these members. -/
  members : s.zset? q.queueKey = .ok members
  /-- The tasks have these hashes. -/
  hashes : ∀ id, s.hash? (q.taskKey id) = .ok (hash id)
  /-- The counter lasts. -/
  counter_lasts : Store.ttl s q.seqKey = none
  /-- The sorted set lasts. -/
  members_last : Store.ttl s q.queueKey = none

/-- An empty store `Shows` a queue on which nothing was done. -/
theorem Shows.empty (q : RedisQueue) : Shows q .empty 0 [] fun _ => .empty where
  counter := rfl
  members := rfl
  hashes _ := rfl
  counter_lasts := rfl
  members_last := rfl

/-- What a store `Shows` to one client it shows to all with the same prefix. -/
theorem Shows.of_keyPrefix (h : Shows q s n members hash)
    (hq : q'.config.keyPrefix = q.config.keyPrefix) : Shows q' s n members hash := by
  have hseq := seqKey_of_keyPrefix hq
  have hqueue := queueKey_of_keyPrefix hq
  constructor
  · exact hseq ▸ h.counter
  · exact hqueue ▸ h.members
  · exact taskKey_of_keyPrefix hq ▸ h.hashes
  · exact hseq ▸ h.counter_lasts
  · exact hqueue ▸ h.members_last

/-- A change that leaves the counter and the sorted set is shown in the hashes only. -/
theorem Shows.of_hashes (h : Shows q s n members hash) (hseq : s'.get? q.seqKey = s.get? q.seqKey)
    (hqueue : s'.get? q.queueKey = s.get? q.queueKey) {hash' : String → FiniteMap Bytes Bytes}
    (hhash : ∀ id, s'.hash? (q.taskKey id) = .ok (hash' id)) : Shows q s' n members hash' where
  counter := h.counter.congr hseq
  members := (Store.zset?_congr hqueue).trans h.members
  hashes := hhash
  counter_lasts := (Store.ttl_congr hseq).trans h.counter_lasts
  members_last := (Store.ttl_congr hqueue).trans h.members_last

/-- A change at the key of one task is shown in the hash of this task only. -/
theorem Shows.of_task (h : Shows q s n members hash) {id : String} {fields : FiniteMap Bytes Bytes}
    (hother : ∀ k, k ≠ q.taskKey id → s'.get? k = s.get? k)
    (hself : s'.hash? (q.taskKey id) = .ok fields) :
    Shows q s' n members (Function.update hash id fields) := by
  refine h.of_hashes (hother _ (taskKey_ne_seqKey id).symm)
    (hother _ (taskKey_ne_queueKey id).symm) fun id' => ?_
  rcases eq_or_ne id' id with rfl | hne
  · rw [Function.update_self, hself]
  · have hsame : s'.get? (q.taskKey id') = s.get? (q.taskKey id') :=
      hother _ (taskKey_injective.ne hne)
    rw [Function.update_of_ne hne, Store.hash?_congr hsame, h.hashes]

/-- `hset` at the key of a task succeeds, and is shown as writing the fields into its hash. -/
theorem Shows.hset (h : Shows q s n members hash) (id : String) (fields : List (Bytes × Bytes)) :
    ∃ s', s.hset (q.taskKey id) fields = .ok s' ∧
      Shows q s' n members (Function.update hash id ((hash id).insertMany fields)) :=
  ⟨_, Store.hset_eq (h.hashes id) fields,
    h.of_task (fun _ hk => Store.get?_replace_of_ne _ hk) (Store.hash?_replace _)⟩

/-- `expire` succeeds with a time to live up to `Store.maxTtl`, and nothing of it is shown. -/
theorem Shows.expire_ok (h : Shows q s n members hash) (id : String) {present : Int} {secs : Nat}
    (hsecs : secs ≤ Store.maxTtl present) :
    ∃ s', s.expire present (q.taskKey id) secs = .ok s' ∧ Shows q s' n members hash := by
  obtain ⟨s', hs', hother, hself⟩ := Store.expire_ok hsecs (q.taskKey id) s
  refine ⟨s', hs', ?_⟩
  have hshows := h.of_task hother ((Store.hash?_of_value hself).trans (h.hashes id))
  rwa [Function.update_eq_self] at hshows

/-- When a key lapses, the hash of a task may lose its fields, and nothing else of it is shown. -/
theorem Shows.lapse (h : Shows q s n members hash) (key : Bytes) :
    ∃ hash', Shows q (s.lapse key) n members hash' ∧
      ∀ id, hash' id = hash id ∨ hash' id = .empty := by
  by_cases htask : ∃ id, q.taskKey id = key
  · obtain ⟨id, rfl⟩ := htask
    have hother : ∀ k, k ≠ q.taskKey id → (s.lapse (q.taskKey id)).get? k = s.get? k :=
      fun k hk => Store.get?_lapse_of_ne hk
    rcases Store.hash?_lapse s (q.taskKey id) with hself | hself
    · exact ⟨_, h.of_task hother (hself.trans (h.hashes id)), fun id' =>
        .inl (by rw [Function.update_eq_self])⟩
    · refine ⟨_, h.of_task hother hself, fun id' => ?_⟩
      rcases eq_or_ne id' id with rfl | hne
      · exact .inr (Function.update_self ..)
      · exact .inl (Function.update_of_ne hne ..)
  · refine ⟨hash, ?_, fun _ => .inl rfl⟩
    rcases eq_or_ne key q.seqKey with rfl | hseq
    · rwa [Store.lapse_eq_self h.counter_lasts]
    rcases eq_or_ne key q.queueKey with rfl | hqueue
    · rwa [Store.lapse_eq_self h.members_last]
    refine h.of_hashes (Store.get?_lapse_of_ne hseq.symm) (Store.get?_lapse_of_ne hqueue.symm)
      fun id => ?_
    have hid : q.taskKey id ≠ key := fun hkey => htask ⟨id, hkey⟩
    rw [Store.hash?_congr (Store.get?_lapse_of_ne hid), h.hashes]

/-- With new members at its key the sorted set is shown with these. -/
theorem Shows.replace_members (h : Shows q s n members hash) (members' : List Scored) :
    Shows q (s.replace q.queueKey (.zset members')) n members' hash := by
  have hseq := Store.get?_replace_of_ne (s := s) (.zset members') (queueKey_ne_seqKey (q := q)).symm
  constructor
  · exact h.counter.congr hseq
  · exact Store.zset?_replace members'
  · intro id
    rw [Store.hash?_congr (Store.get?_replace_of_ne _ (taskKey_ne_queueKey id)), h.hashes]
  · rw [Store.ttl_congr hseq, h.counter_lasts]
  · exact Store.ttl_replace _ h.members_last

/-- `incr` at the key of the counter gives the next number, and the counter is shown with it. -/
theorem Shows.incr (h : Shows q s n members hash) (hn : n + 1 < 2 ^ 63) :
    ∃ s', s.incr q.seqKey = .ok ((n + 1 : Nat), s') ∧ Shows q s' (n + 1) members hash := by
  obtain ⟨hincr, hcounter⟩ := h.counter.incr hn
  refine ⟨_, hincr, ?_⟩
  have hqueue := Store.get?_replace_of_ne (s := s)
    (.string (Store.counterText (n + 1 : Nat))) (queueKey_ne_seqKey (q := q))
  constructor
  · exact hcounter
  · rw [Store.zset?_congr hqueue, h.members]
  · intro id
    rw [Store.hash?_congr (Store.get?_replace_of_ne _ (taskKey_ne_seqKey id)), h.hashes]
  · exact Store.ttl_replace _ h.counter_lasts
  · rw [Store.ttl_congr hqueue, h.members_last]

/-! ### What the operations do -/

/-- The fields of the hash of a task that was just pushed. -/
def pushedFields (id : String) (e : Envelope) : List (Bytes × Bytes) :=
  [field "id" id, field "data" e.encode, field "state" "queued"]

/-- A push numbers the task as a script shows the number of pushes (`scriptNumber`), puts a member
for it among the others and writes the `pushedFields` into the hash of the task. -/
theorem Shows.push_number (h : Shows q s n members hash) (hn : n + 1 < 2 ^ 63) {k : Nat}
    (hk : scriptNumber (n + 1 : Nat) = k) (e : Envelope) (priority : Int64) :
    ∃ s', q.push e priority s = (.ok (idText k), s') ∧
      Shows q s' (n + 1)
        (Store.insertScored ⟨Binary64.roundInt priority.toInt, memberText k⟩
          (members.filter fun x => x.member ≠ memberText k))
        (Function.update hash (idText k)
          ((hash (idText k)).insertMany (pushedFields (idText k) e))) := by
  obtain ⟨s₁, hincr, h₁⟩ := h.incr hn
  obtain ⟨s₂, hhset, h₂⟩ := h₁.hset (idText k) (pushedFields (idText k) e)
  refine ⟨_, ?_, h₂.replace_members _⟩
  unfold RedisQueue.push
  rw [hincr]
  dsimp only
  rw [hk]
  unfold pushedFields at hhset
  rw [hhset]
  dsimp only
  rw [Store.zadd_eq h₂.members]

/-- A push gives the number of pushes as the id, puts a member for it among the others and writes
the `pushedFields` into the hash of the task. -/
theorem Shows.push (h : Shows q s n members hash) (hn : n + 1 ≤ 2 ^ 53) (e : Envelope)
    (priority : Int64) :
    ∃ s', q.push e priority s = (.ok (idText (n + 1)), s') ∧
      Shows q s' (n + 1)
        (Store.insertScored ⟨Binary64.roundInt priority.toInt, memberText (n + 1)⟩
          (members.filter fun x => x.member ≠ memberText (n + 1)))
        (Function.update hash (idText (n + 1))
          ((hash (idText (n + 1))).insertMany (pushedFields (idText (n + 1)) e))) :=
  h.push_number (by omega) (scriptNumber_eq_self hn) e priority

/-- What the caller of `pop` makes of the body in the hash of the task taken off the queue. -/
def taken (id : String) : Option Bytes → Except QueueError PoppedTask
  | none => .error (.corrupt id "task hash has no data field")
  | some data =>
    match Bytes.toString? data with
    | none => .error (.storeFailed StoreError.badReply.message)
    | some body =>
      match Envelope.decode? body with
      | some e => .ok (e.popped id)
      | none => .error (.corrupt id ("bad task body: " ++ Envelope.faultText body))

/-- The first half of `pop`: the script, and what the caller makes of its reply. -/
def take (q : RedisQueue) (s : Store) : Except QueueError PoppedTask × Store :=
  match q.popScript s with
  | (.error err, s) => (.error (.storeFailed err.message), s)
  | (.ok none, s) => (.error .empty, s)
  | (.ok (some (id, data)), s) => (taken id data, s)

/-- A `pop` is a `take`, after which a task whose body cannot be read is reported. -/
theorem pop_eq (q : RedisQueue) (now : Timestamp) (s : Store) :
    q.pop now s = match q.take s with
      | (.error (.corrupt id reason), s) =>
        (.error (.corrupt id reason), (q.report (corruptReport id reason) now s).2)
      | answer => answer := by
  unfold pop take
  rcases q.popScript s with ⟨_ | _ | ⟨id, _ | data⟩, s⟩
  · rfl
  · rfl
  · rfl
  · dsimp only [taken]
    cases Bytes.toString? data with
    | none => rfl
    | some body =>
      dsimp only
      cases Envelope.decode? body <;> rfl

/-- `take` finds nothing in an empty queue and leaves the store as it is. -/
theorem Shows.take_nil (h : Shows q s n [] hash) : q.take s = (.error .empty, s) := by
  unfold RedisQueue.take popScript
  rw [Store.zpopmin_nil h.members]

/-- `take` takes the first member off the queue and sets the state of its task to `popped`; the
answer is what `taken` makes of its body. -/
theorem Shows.take_cons {x : Scored} {rest : List Scored} (h : Shows q s n (x :: rest) hash)
    {k : Nat} (hx : memberNumber? x.member = some k) :
    ∃ s', q.take s = (taken (idText k) ((hash (idText k)).get? (Bytes.ofString "data")), s') ∧
      Shows q s' n rest (Function.update hash (idText k)
        ((hash (idText k)).insertMany [field "state" "popped"])) := by
  have h₁ := h.replace_members rest
  obtain ⟨s₂, hhset, h₂⟩ := h₁.hset (idText k) [field "state" "popped"]
  refine ⟨s₂, ?_, h₂⟩
  unfold RedisQueue.take popScript
  rw [Store.zpopmin_cons h.members]
  dsimp only
  rw [hx]
  dsimp only
  unfold Store.hget
  rw [h₁.hashes]
  dsimp only
  rw [hhset]

/-- The fields of the hash of a task that was canceled while it was queued. -/
def canceledFields (now : Timestamp) : List (Bytes × Bytes) :=
  [field "state" "canceled", field "error" TaskError.canceled.message,
    field "finished_at" now.toOffsetText]

/-- If what `scriptRead?` makes of an id names no member, its cancelation is answered with
`notFound` and leaves the store as it is. -/
theorem Shows.cancel_notFound (h : Shows q s n members hash) {id : String}
    (hid : ∀ k, scriptRead? id.toList = some k → ∀ x ∈ members, x.member ≠ memberText k)
    (now : Timestamp) : q.cancel id now s = (.error (.notFound id), s) := by
  unfold RedisQueue.cancel
  cases hk : scriptRead? id.toList with
  | none => rfl
  | some k =>
    dsimp only
    rw [Store.zrem_of_not_mem h.members (hid k hk)]

/-- The last command of `cancel` and `report`: the record gets its time to live. -/
def keep (q : RedisQueue) (id : String) (now : Timestamp) (s : Store) :
    Except QueueError Unit × Store :=
  match s.expire now.millis (q.taskKey id) q.ttlSecs with
  | .error err => (.error (.storeFailed err.message), s)
  | .ok s => (.ok (), s)

/-- The answer of an operation that ends with setting the time to live: success when `Store.maxTtl`
admits it at the present, and otherwise a failure of the store. -/
def IsKept (q : RedisQueue) (now : Timestamp) (answer : Except QueueError Unit) : Prop :=
  if q.ttlSecs ≤ Store.maxTtl now.millis then answer = .ok ()
  else ∃ detail, answer = .error (.storeFailed detail)

/-- An operation whose time to live is accepted answers `ok`. -/
theorem IsKept.eq_ok {answer : Except QueueError Unit} (h : q.IsKept now answer)
    (httl : q.ttlSecs ≤ Store.maxTtl now.millis) : answer = .ok () := by
  unfold IsKept at h
  rwa [if_pos httl] at h

/-- An operation that sets a time to live and answers `ok` has one of at most `Store.maxTtl`. -/
theorem IsKept.ttlSecs_le (h : q.IsKept now (.ok ())) : q.ttlSecs ≤ Store.maxTtl now.millis := by
  unfold IsKept at h
  split at h
  next hsecs => exact hsecs
  next =>
    obtain ⟨detail, hdetail⟩ := h
    cases hdetail

/-- An operation that gets as far as the time to live does not answer `notFound`. -/
theorem IsKept.ne_notFound {answer : Except QueueError Unit} (h : q.IsKept now answer)
    (id : String) : answer ≠ .error (.notFound id) := by
  unfold IsKept at h
  split at h
  next =>
    rw [h]
    simp
  next =>
    obtain ⟨detail, rfl⟩ := h
    simp

/-- `keep` answers `ok` for a time to live of at most `Store.maxTtl`. -/
theorem keep_ok (hsecs : q.ttlSecs ≤ Store.maxTtl now.millis) (id : String) (s : Store) :
    (q.keep id now s).1 = .ok () := by
  obtain ⟨s', hexpire, -, -⟩ := Store.expire_ok hsecs (q.taskKey id) s
  unfold RedisQueue.keep
  rw [hexpire]

/-- `keep` fails for a time to live beyond `Store.maxTtl`, and leaves the store as it is. -/
theorem keep_error (hsecs : Store.maxTtl now.millis < q.ttlSecs) (id : String) (s : Store) :
    ∃ detail, q.keep id now s = (.error (.storeFailed detail), s) := by
  obtain ⟨err, hexpire⟩ := Store.expire_error hsecs (q.taskKey id) s
  unfold RedisQueue.keep
  rw [hexpire]
  exact ⟨_, rfl⟩

/-- `keep` answers as `IsKept` says, and nothing of it is shown. -/
theorem Shows.keep (h : Shows q s n members hash) (id : String) (now : Timestamp) :
    ∃ answer s', q.keep id now s = (answer, s') ∧ q.IsKept now answer ∧
      Shows q s' n members hash := by
  unfold IsKept
  rcases Nat.lt_or_ge (Store.maxTtl now.millis) q.ttlSecs with hsecs | hsecs
  · obtain ⟨detail, hkeep⟩ := keep_error hsecs id s
    exact ⟨_, _, hkeep, (if_neg (Nat.not_le.2 hsecs)).mpr ⟨_, rfl⟩, h⟩
  · obtain ⟨s', hexpire, h'⟩ := h.expire_ok id hsecs
    refine ⟨_, s', ?_, (if_pos hsecs).mpr rfl, h'⟩
    unfold RedisQueue.keep
    rw [hexpire]

/-- A cancelation that finds its member and writes the `canceledFields` ends with `keep`. -/
theorem cancel_eq_keep {id : String} {k : Nat} {now : Timestamp} {s₁ s₂ : Store}
    (hid : scriptRead? id.toList = some k)
    (hzrem : s.zrem q.queueKey (memberText k) = .ok (true, s₁))
    (hhset : s₁.hset (q.taskKey id) (canceledFields now) = .ok s₂) :
    q.cancel id now s = q.keep id now s₂ := by
  unfold RedisQueue.cancel RedisQueue.keep
  rw [hid]
  dsimp only
  rw [hzrem]
  dsimp only
  unfold canceledFields at hhset
  rewrite [hhset]
  rfl

/-- Canceling a task whose member is there removes the member and writes the `canceledFields`,
whether or not the time to live is accepted after that. -/
theorem Shows.cancel_found (h : Shows q s n members hash) {id : String} {k : Nat}
    (hid : scriptRead? id.toList = some k) (hk : ∃ x ∈ members, x.member = memberText k)
    (now : Timestamp) :
    ∃ answer s', q.cancel id now s = (answer, s') ∧ q.IsKept now answer ∧
      Shows q s' n (members.filter fun x => x.member ≠ memberText k)
        (Function.update hash id ((hash id).insertMany (canceledFields now))) := by
  have h₁ := h.replace_members (members.filter fun x => x.member ≠ memberText k)
  obtain ⟨s₂, hhset, h₂⟩ := h₁.hset id (canceledFields now)
  obtain ⟨answer, s₃, hkeep, hkept, h₃⟩ := h₂.keep id now
  exact ⟨answer, s₃, (cancel_eq_keep hid (Store.zrem_of_mem h.members hk) hhset).trans hkeep, hkept,
    h₃⟩

/-- A cancelation is answered with `notFound` and changes nothing, or it writes the `canceledFields`
into the hash at its id. -/
theorem Shows.cancel_cases (h : Shows q s n members hash) (id : String) (now : Timestamp) :
    q.cancel id now s = (.error (.notFound id), s) ∨
      ∃ answer s' members', q.cancel id now s = (answer, s') ∧
        Shows q s' n members'
          (Function.update hash id ((hash id).insertMany (canceledFields now))) := by
  by_cases hid : ∃ k, scriptRead? id.toList = some k ∧ ∃ x ∈ members, x.member = memberText k
  · obtain ⟨k, hk, hx⟩ := hid
    obtain ⟨answer, s', hcancel, -, h'⟩ := h.cancel_found hk hx now
    exact .inr ⟨answer, s', _, hcancel, h'⟩
  · exact .inl (h.cancel_notFound (fun k hk x hx hxk => hid ⟨k, hk, x, hx, hxk⟩) now)

/-- The fields that the report of a task writes. -/
def reportedFields (record : ResultRecord) : List (Bytes × Bytes) :=
  [field "state" record.status.name, field "type" record.taskType,
    field "duration_ms" (wordText record.durationMs),
    field "finished_at" record.finishedAt.toOffsetText] ++
  (match record.error with
    | some e => [field "error" e]
    | none => []) ++
  (match record.result with
    | some v => [field "result" v.compact]
    | none => [])

/-- A report that writes its `reportedFields` ends with `keep`. -/
theorem report_eq_keep {r : TaskReport} {now : Timestamp} {s₁ : Store}
    (hhset : s.hset (q.taskKey r.id) (reportedFields (r.toRecord now)) = .ok s₁) :
    q.report r now s = q.keep r.id now s₁ := by
  have hid : (r.toRecord now).id = r.id := rfl
  revert hhset
  unfold RedisQueue.keep RedisQueue.report reportedFields
  dsimp only
  rw [hid]
  cases (r.toRecord now).error <;> cases (r.toRecord now).result <;> intro hhset <;>
    rw [hhset] <;> dsimp only <;> cases s₁.expire now.millis (q.taskKey r.id) q.ttlSecs <;> rfl

/-- A report writes its `reportedFields`, whether or not the time to live is accepted after that. -/
theorem Shows.report (h : Shows q s n members hash) (r : TaskReport) (now : Timestamp) :
    ∃ answer s', q.report r now s = (answer, s') ∧ q.IsKept now answer ∧
      Shows q s' n members
        (Function.update hash r.id ((hash r.id).insertMany (reportedFields (r.toRecord now)))) := by
  obtain ⟨s₁, hhset, h₁⟩ := h.hset r.id (reportedFields (r.toRecord now))
  obtain ⟨answer, s₂, hkeep, hkept, h₂⟩ := h₁.keep r.id now
  exact ⟨answer, s₂, (report_eq_keep hhset).trans hkeep, hkept, h₂⟩

/-- `len` is the number of members that the store shows. -/
theorem Shows.len (h : Shows q s n members hash) : q.len s = .ok members.length := by
  unfold RedisQueue.len Store.zcard
  rw [h.members]

end TaskScheduler.RedisQueue
