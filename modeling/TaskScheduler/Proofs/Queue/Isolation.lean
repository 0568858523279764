import TaskScheduler.Proofs.Queue.Accounts
import TaskScheduler.Proofs.Redis.Restriction

/-!
# Queues with different prefixes

Queues that share a store are told apart by the prefix of their keys.  A prefix may be the beginning
of another one and may itself contain colons, and yet the last colon of a key tells where the key
belongs: what follows it is the name of the counter, the name of the sorted set, or an id made of
digits, and in the last case the word before it is `task`.

So no key belongs to two prefixes, an operation keeps to the keys of its own prefix, and a history
looks to the clients of one prefix as if the clients of all others had done nothing.
-/

namespace TaskScheduler

/-- The id that a call names. -/
def QueueCall.id? : QueueCall → Option String
  | cancel id _ => some id
  | report r _ => some r.id
  | get id _ => some id
  | _ => none

namespace RedisQueue

open Redis

variable {q client : RedisQueue} {s : Store} {key : Bytes}

/-! ### The keys of a prefix -/

/-- The id consists of hexadecimal digits. -/
def IsHexId (id : String) : Prop := ∀ c ∈ id.toList, Hex.isDigit c = true

/-- The keys of a queue: those of the counter, of the sorted set, and of the tasks whose ids consist
of digits. -/
inductive Owns (q : RedisQueue) : Bytes → Prop
  /-- The counter. -/
  | counter : Owns q q.seqKey
  /-- The sorted set. -/
  | members : Owns q q.queueKey
  /-- The hash of a task. -/
  | task {id : String} (h : IsHexId id) : Owns q (q.taskKey id)

/-- The `idText` of a number consists of hexadecimal digits. -/
theorem isHexId_idText (n : Nat) : IsHexId (idText n) := by
  intro c hc
  have hlist : (idText n).toList = Hex.digits n := String.toList_ofList
  rw [hlist] at hc
  exact (Hex.isLower_of_mem_digits hc).isDigit

/-- Two texts with the same last colon agree before it and after it. -/
theorem eq_and_eq_of_append_cons {α : Type} {c : α} {a b x y : List α} (hx : c ∉ x) (hy : c ∉ y)
    (h : a ++ c :: x = b ++ c :: y) : a = b ∧ x = y := by
  rcases List.append_eq_append_iff.1 h with ⟨l, rfl, hl⟩ | ⟨l, rfl, hl⟩
  · cases l with
    | nil => exact ⟨(List.append_nil a).symm, (List.cons.inj hl).2⟩
    | cons d l =>
      refine absurd ?_ hx
      rw [(List.cons.inj hl).2]
      exact List.mem_append_right _ List.mem_cons_self
  · cases l with
    | nil => exact ⟨List.append_nil b, (List.cons.inj hl).2.symm⟩
    | cons d l =>
      refine absurd ?_ hy
      rw [(List.cons.inj hl).2]
      exact List.mem_append_right _ List.mem_cons_self

/-- What stands before the last colon of a key and what stands after it. -/
inductive Parts (q : RedisQueue) : List Char → List Char → Prop
  /-- The name of the counter. -/
  | counter : Parts q q.config.keyPrefix.toList "seq".toList
  /-- The name of the sorted set. -/
  | members : Parts q q.config.keyPrefix.toList "queue".toList
  /-- An id after the word for tasks. -/
  | task {ds : List Char} (h : ∀ c ∈ ds, Hex.isDigit c = true) :
    Parts q (q.config.keyPrefix.toList ++ ":task".toList) ds

/-- There is no colon in the last of the `Parts` of a key. -/
theorem Parts.not_mem {a x : List Char} (h : Parts q a x) : ':' ∉ x := by
  cases h with
  | counter => decide
  | members => decide
  | task hds => exact fun hmem => absurd (hds ':' hmem) (by decide)

/-- Every key that a queue `Owns` has its `Parts`. -/
theorem Owns.exists_parts (h : q.Owns key) :
    ∃ a x, Parts q a x ∧ key = Bytes.ofString (String.ofList (a ++ ':' :: x)) := by
  cases h with
  | counter =>
    refine ⟨_, _, .counter, congrArg Bytes.ofString ?_⟩
    exact String.toList_injective (by simp)
  | members =>
    refine ⟨_, _, .members, congrArg Bytes.ofString ?_⟩
    exact String.toList_injective (by simp)
  | @task id hid =>
    refine ⟨_, _, .task hid, congrArg Bytes.ofString ?_⟩
    exact String.toList_injective (by simp)

/-- Two queues whose keys have the same `Parts` have one prefix. -/
theorem Parts.keyPrefix_eq {a x : List Char} (h : Parts q a x) (h' : Parts client a x) :
    client.config.keyPrefix = q.config.keyPrefix := by
  have hseq : ¬ ∀ c ∈ "seq".toList, Hex.isDigit c = true := fun h =>
    absurd (h 's' (by decide)) (by decide)
  have hqueue : ¬ ∀ c ∈ "queue".toList, Hex.isDigit c = true := fun h =>
    absurd (h 'q' (by decide)) (by decide)
  generalize ha : a = a' at h'
  generalize hx : x = x' at h'
  apply String.toList_injective
  cases h with
  | counter =>
    cases h' with
    | counter => exact ha.symm
    | members => exact absurd hx (by decide)
    | task hds => exact absurd (hx ▸ hds) hseq
  | members =>
    cases h' with
    | counter => exact absurd hx (by decide)
    | members => exact ha.symm
    | task hds => exact absurd (hx ▸ hds) hqueue
  | task hds =>
    cases h' with
    | counter => exact absurd (hx ▸ hds) hseq
    | members => exact absurd (hx ▸ hds) hqueue
    | task hds' => exact (List.append_cancel_right ha).symm

/-- No key belongs to two prefixes (`Owns`), also when one of them is the beginning of the other. -/
theorem Owns.keyPrefix_eq (h : q.Owns key) (h' : client.Owns key) :
    client.config.keyPrefix = q.config.keyPrefix := by
  obtain ⟨a, x, hparts, rfl⟩ := h.exists_parts
  obtain ⟨b, y, hparts', hkey⟩ := h'.exists_parts
  have hlist := String.ofList_injective (Bytes.ofString_injective hkey)
  obtain ⟨rfl, rfl⟩ := eq_and_eq_of_append_cons hparts.not_mem hparts'.not_mem hlist
  exact hparts.keyPrefix_eq hparts'

/-- Clients with one prefix own the same keys. -/
theorem Owns.of_keyPrefix (h : client.Owns key)
    (hq : client.config.keyPrefix = q.config.keyPrefix) : q.Owns key := by
  cases h with
  | counter => exact seqKey_of_keyPrefix hq ▸ .counter
  | members => exact queueKey_of_keyPrefix hq ▸ .members
  | task hid => exact taskKey_of_keyPrefix hq ▸ .task hid

/-! ### Operations keep to the keys of their prefix -/

/-- `push` keeps to the keys that the queue `Owns`. -/
theorem keepsTo_push (q : RedisQueue) (e : Envelope) (priority : Int64) :
    Store.KeepsTo q.Owns (q.push e priority) where
  inside own hown s := by
    unfold push
    rw [Store.incr_restrict s (hown _ .counter)]
    rcases s.incr q.seqKey with err | ⟨n, s₁⟩
    · rfl
    dsimp only [Except.map]
    rw [Store.hset_restrict s₁ (hown _ (.task (isHexId_idText _)))]
    rcases s₁.hset _ _ with err | s₂
    · rfl
    dsimp only [Except.map]
    rw [Store.zadd_restrict s₂ (hown _ .members)]
    rcases s₂.zadd q.queueKey _ _ with err | s₃
    · rfl
    · rfl
  outside own hown s := by
    unfold push
    rcases hincr : s.incr q.seqKey with err | ⟨n, s₁⟩
    · rfl
    have h₁ := Store.restrict_incr (hown _ .counter) hincr
    dsimp only
    split
    next => exact h₁
    next s₂ hhset =>
      have h₂ := Store.restrict_hset (hown _ (.task (isHexId_idText _))) hhset
      split
      next => exact h₂.trans h₁
      next s₃ hzadd => exact (Store.restrict_zadd (hown _ .members) hzadd).trans (h₂.trans h₁)

/-- `report` keeps to the keys that the queue `Owns`, if the id consists of digits. -/
theorem keepsTo_report (q : RedisQueue) {r : TaskReport} (hid : IsHexId r.id) (now : Timestamp) :
    Store.KeepsTo q.Owns (q.report r now) where
  inside own hown s := by
    have hkey : own (q.taskKey (r.toRecord now).id) = true := hown _ (.task hid)
    unfold report
    dsimp only
    rw [Store.hset_restrict s hkey]
    rcases s.hset _ _ with err | s₁
    · dsimp only [Except.map]
      rw [Store.expire_restrict s hkey]
      rcases s.expire _ _ _ with err' | s₂ <;> rfl
    · dsimp only [Except.map]
      rw [Store.expire_restrict s₁ hkey]
      rcases s₁.expire _ _ _ with err' | s₂ <;> rfl
  outside own hown s := by
    have hkey : own (q.taskKey (r.toRecord now).id) = false := hown _ (.task hid)
    unfold report
    dsimp only
    rcases hhset : s.hset _ _ with err | s₁
    · dsimp only
      rcases hexpire : s.expire _ _ _ with err' | s₂
      · rfl
      · exact Store.restrict_expire hkey hexpire
    · have h₁ := Store.restrict_hset hkey hhset
      dsimp only
      rcases hexpire : s₁.expire _ _ _ with err' | s₂
      · exact h₁
      · exact (Store.restrict_expire hkey hexpire).trans h₁

/-- `popScript` keeps to the keys that the queue `Owns`. -/
theorem keepsTo_popScript (q : RedisQueue) : Store.KeepsTo q.Owns q.popScript where
  inside own hown s := by
    have hkey (n : Nat) : own (q.taskKey (idText n)) = true := hown _ (.task (isHexId_idText n))
    unfold popScript
    rw [Store.zpopmin_restrict s (hown _ .members)]
    rcases s.zpopmin q.queueKey with err | _ | ⟨member, s₁⟩
    · rfl
    · rfl
    dsimp only [Except.map, Option.map]
    rcases memberNumber? member with _ | n
    · rfl
    dsimp only
    rw [Store.hget_restrict s₁ (hkey n)]
    rcases s₁.hget _ _ with err | data
    · rfl
    dsimp only
    rw [Store.hset_restrict s₁ (hkey n)]
    rcases s₁.hset _ _ with err | s₂ <;> rfl
  outside own hown s := by
    unfold popScript
    rcases hpop : s.zpopmin q.queueKey with err | _ | ⟨member, s₁⟩
    · rfl
    · rfl
    have h₁ := Store.restrict_zpopmin (hown _ .members) hpop
    dsimp only
    rcases memberNumber? member with _ | n
    · exact h₁
    dsimp only
    split
    next => exact h₁
    next =>
      split
      next => exact h₁
      next s₂ hhset =>
        exact (Store.restrict_hset (hown _ (.task (isHexId_idText n))) hhset).trans h₁

/-- The id that `popScript` gives consists of digits. -/
theorem isHexId_of_popScript {id : String} {data : Option Bytes} {s' : Store} :
    q.popScript s = (.ok (some (id, data)), s') → IsHexId id := by
  unfold popScript
  rcases s.zpopmin q.queueKey with err | _ | ⟨member, s₁⟩
  · exact fun h => absurd h (by simp)
  · exact fun h => absurd h (by simp)
  dsimp only
  rcases memberNumber? member with _ | n
  · exact fun h => absurd h (by simp)
  dsimp only
  rcases s₁.hget _ _ with err | data'
  · exact fun h => absurd h (by simp)
  dsimp only
  rcases s₁.hset _ _ with err | s₂
  · exact fun h => absurd h (by simp)
  intro h
  simp only [Prod.mk.injEq, Except.ok.injEq, Option.some.injEq] at h
  exact h.1.1 ▸ isHexId_idText n

/-- If `take` cannot read a body, it names the task by an id that consists of digits. -/
theorem isHexId_of_take {id reason : String} (h : (q.take s).1 = .error (.corrupt id reason)) :
    IsHexId id := by
  unfold take at h
  rcases hpop : q.popScript s with ⟨_ | _ | ⟨id', data⟩, s₁⟩
  · exact absurd h (by simp [hpop])
  · exact absurd h (by simp [hpop])
  rw [hpop] at h
  have hid : id' = id := by
    dsimp only at h
    unfold taken at h
    grind
  exact hid ▸ isHexId_of_popScript hpop

/-- `take` keeps to the keys that the queue `Owns`. -/
theorem keepsTo_take (q : RedisQueue) : Store.KeepsTo q.Owns q.take where
  inside own hown s := by
    unfold take
    rw [(keepsTo_popScript q).inside own hown s]
    rcases q.popScript s with ⟨_ | _ | ⟨id, data⟩, s₁⟩ <;> rfl
  outside own hown s := by
    have hscript := (keepsTo_popScript q).outside own hown s
    unfold take
    revert hscript
    rcases q.popScript s with ⟨_ | _ | ⟨_, data⟩, s₁⟩ <;> exact id

/-- `pop` keeps to the keys that the queue `Owns`, also when it reports a task whose body cannot be
read. -/
theorem keepsTo_pop (q : RedisQueue) (now : Timestamp) : Store.KeepsTo q.Owns (q.pop now) where
  inside own hown s := by
    rw [pop_eq, pop_eq, (keepsTo_take q).inside own hown s]
    rcases htake : q.take s with ⟨err | task, s₁⟩
    · cases err with
      | corrupt id reason =>
        have hid : IsHexId id := isHexId_of_take (congrArg Prod.fst htake)
        have hreport := keepsTo_report q (r := corruptReport id reason) hid now
        exact congrArg (fun r => (_, r.2)) (hreport.inside own hown s₁)
      | _ => rfl
    · rfl
  outside own hown s := by
    have htaken := (keepsTo_take q).outside own hown s
    rw [pop_eq]
    rcases htake : q.take s with ⟨err | task, s₁⟩
    · rw [htake] at htaken
      cases err with
      | corrupt id reason =>
        have hid : IsHexId id := isHexId_of_take (congrArg Prod.fst htake)
        have hreport := keepsTo_report q (r := corruptReport id reason) hid now
        exact (hreport.outside own hown s₁).trans htaken
      | _ => exact htaken
    · rw [htake] at htaken
      exact htaken

/-- `cancel` keeps to the keys that the queue `Owns`, if the id consists of digits. -/
theorem keepsTo_cancel (q : RedisQueue) {id : String} (hid : IsHexId id) (now : Timestamp) :
    Store.KeepsTo q.Owns (q.cancel id now) where
  inside own hown s := by
    have hkey : own (q.taskKey id) = true := hown _ (.task hid)
    unfold cancel
    rcases scriptRead? id.toList with _ | n
    · rfl
    dsimp only
    rw [Store.zrem_restrict s (hown _ .members)]
    rcases s.zrem q.queueKey _ with err | ⟨_ | _, s₁⟩
    · rfl
    · rfl
    dsimp only [Except.map]
    rw [Store.hset_restrict s₁ hkey]
    rcases s₁.hset _ _ with err | s₂
    · rfl
    dsimp only [Except.map]
    rw [Store.expire_restrict s₂ hkey]
    rcases s₂.expire _ _ _ with err | s₃ <;> rfl
  outside own hown s := by
    have hkey : own (q.taskKey id) = false := hown _ (.task hid)
    unfold cancel
    rcases scriptRead? id.toList with _ | n
    · rfl
    dsimp only
    rcases hzrem : s.zrem q.queueKey (memberText n) with err | ⟨_ | _, s₁⟩
    · rfl
    · exact Store.restrict_zrem (hown _ .members) hzrem
    have h₁ := Store.restrict_zrem (hown _ .members) hzrem
    dsimp only
    split
    next => exact h₁
    next s₂ hhset =>
      have h₂ := Store.restrict_hset hkey hhset
      split
      next => exact h₂.trans h₁
      next s₃ hexpire => exact (Store.restrict_expire hkey hexpire).trans (h₂.trans h₁)

/-- Every call that names ids of digits only keeps to the keys that the queue `Owns`. -/
theorem keepsTo_serve (q : RedisQueue) (c : QueueCall) (hid : ∀ id, c.id? = some id → IsHexId id) :
    Store.KeepsTo q.Owns fun s => q.serve s c := by
  cases c with
  | push e priority => exact (keepsTo_push q e priority).map QueueAnswer.pushed
  | pop now => exact (keepsTo_pop q now).map QueueAnswer.popped
  | cancel id now => exact (keepsTo_cancel q (hid id rfl) now).map QueueAnswer.done
  | report r now => exact (keepsTo_report q (hid r.id rfl) now).map QueueAnswer.done
  | get id now =>
    refine .ask fun own hown s => ?_
    unfold get
    rw [Store.hash?_restrict s (hown _ (.task (hid id rfl)))]
  | len =>
    refine .ask fun own hown s => congrArg QueueAnswer.length ?_
    unfold len Store.zcard
    rw [Store.zset?_restrict s (hown _ .members)]
  | isEmpty =>
    refine .ask fun own hown s => congrArg (QueueAnswer.emptiness ∘ Except.map (· == 0)) ?_
    unfold len Store.zcard
    rw [Store.zset?_restrict s (hown _ .members)]

/-! ### Histories of clients with several prefixes -/

/-- Every id that a caller names consists of digits. -/
def Event.NamesHexIds : Event → Prop
  | call _ c => ∀ id, c.id? = some id → IsHexId id
  | _ => True

/-- Whether an event is the act of a client with the prefix, or the end of a time to live. -/
def Event.isUnder (q : RedisQueue) (e : Event) : Bool :=
  e.client?.all fun client => client.config.keyPrefix == q.config.keyPrefix

/-- Whether a client with the prefix was served. -/
def Served.isUnder (q : RedisQueue) (x : Served) : Bool :=
  x.client.config.keyPrefix == q.config.keyPrefix

/-- What a client does in an event that `NamesHexIds` keeps to the keys that it `Owns`. -/
theorem Event.keepsTo_step {e : Event} (hid : e.NamesHexIds) (hclient : e.client? = some client) :
    Store.KeepsTo client.Owns fun s => e.step s := by
  cases e with
  | call client' c =>
    cases hclient
    exact (keepsTo_serve client c hid).map fun answer => [Served.mk client c answer]
  | take client' now =>
    cases hclient
    exact (keepsTo_take client).map fun answer => [Served.mk client (.pop now) (.popped answer)]
  | lapse key => cases hclient

/-- Only the client that acts is served. -/
theorem Event.client?_of_mem_step {e : Event} {x : Served} (hx : x ∈ (e.step s).1) :
    e.client? = some x.client := by
  cases e with
  | call client c => rw [List.mem_singleton.1 hx]; rfl
  | take client now => rw [List.mem_singleton.1 hx]; rfl
  | lapse key => exact absurd hx List.not_mem_nil

/-- A history is its first event, and then the others on the store that it leaves. -/
theorem history_cons (s : Store) (e : Event) (events : List Event) :
    history s (e :: events) =
      ((e.step s).1 ++ (history (e.step s).2 events).1, (history (e.step s).2 events).2) := rfl

/-- Who is served in a history acts in one of its events. -/
theorem exists_event_of_served {events : List Event} {x : Served} :
    ∀ {s : Store}, x ∈ (history s events).1 → ∃ e ∈ events, e.client? = some x.client := by
  induction events with
  | nil => exact fun hx => absurd hx List.not_mem_nil
  | cons e events ih =>
    intro s hx
    rw [history_cons] at hx
    rcases List.mem_append.1 hx with hx | hx
    · exact ⟨e, List.mem_cons_self, Event.client?_of_mem_step hx⟩
    · obtain ⟨e', he', hclient⟩ := ih hx
      exact ⟨e', List.mem_cons_of_mem _ he', hclient⟩

section Own

variable {own : Bytes → Bool} (hown : ∀ key, own key = true ↔ q.Owns key)

include hown

/-- An event that `isUnder` the prefix does to the keys of the prefix what it does to the whole
store. -/
theorem Event.step_restrict {e : Event} (hid : e.NamesHexIds) (he : e.isUnder q = true)
    (s : Store) :
    e.step (s.restrict own) = ((e.step s).1, (e.step s).2.restrict own) := by
  rcases hclient : e.client? with _ | client
  · cases e with
    | lapse key => exact congrArg ([], ·) (Store.restrict_lapse own s key).symm
    | _ => cases hclient
  · have hprefix : client.config.keyPrefix = q.config.keyPrefix := by
      simpa [isUnder, hclient] using he
    refine (keepsTo_step hid hclient).inside own (fun key hkey => ?_) s
    exact (hown key).2 (hkey.of_keyPrefix hprefix)

/-- An event that is not under the prefix leaves the keys of the prefix as they are. -/
theorem Event.restrict_step {e : Event} (hid : e.NamesHexIds) (he : e.isUnder q = false)
    (s : Store) : (e.step s).2.restrict own = s.restrict own := by
  rcases hclient : e.client? with _ | client
  · simp [isUnder, hclient] at he
  · have hprefix : client.config.keyPrefix ≠ q.config.keyPrefix := by
      simpa [isUnder, hclient] using he
    refine (keepsTo_step hid hclient).outside own (fun key hkey => ?_) s
    rw [← Bool.not_eq_true, hown key]
    exact fun hq => hprefix (hq.keyPrefix_eq hkey)

/-- On the keys of the prefix, the events that are under the prefix are all that happens in a
history. -/
theorem history_restrict {events : List Event} (hid : ∀ e ∈ events, e.NamesHexIds) (s : Store) :
    history (s.restrict own) (events.filter (Event.isUnder q)) =
      ((history s events).1.filter (Served.isUnder q), (history s events).2.restrict own) := by
  induction events generalizing s with
  | nil => rfl
  | cons e events ih =>
    have hfirst := hid e List.mem_cons_self
    have hserved : ∀ x ∈ (e.step s).1, x.isUnder q = e.isUnder q := by
      intro x hx
      rw [Event.isUnder, Event.client?_of_mem_step hx]
      rfl
    have hrest := ih (fun e' he' => hid e' (List.mem_cons_of_mem _ he')) (e.step s).2
    rw [history_cons, List.filter_append]
    cases he : e.isUnder q with
    | true =>
      rw [List.filter_cons_of_pos he, history_cons, Event.step_restrict hown hfirst he s, hrest,
        List.filter_eq_self.2 fun x hx => (hserved x hx).trans he]
    | false =>
      rw [List.filter_cons_of_neg (Bool.eq_false_iff.1 he), ← Event.restrict_step hown hfirst he s,
        hrest]
      have hnone : (e.step s).1.filter (Served.isUnder q) = [] :=
        List.filter_eq_nil_iff.2 fun x hx => Bool.eq_false_iff.1 ((hserved x hx).trans he)
      rw [hnone, List.nil_append]

end Own

/-- Clients of any prefixes share a store that may hold anything, and name ids made of digits.  What
the clients of one prefix are answered, and what the keys of this prefix hold in the end, is the
same as if the clients of all other prefixes had done nothing. -/
theorem history_isolated {q : RedisQueue} {events : List Event}
    (hid : ∀ e ∈ events, e.NamesHexIds) (s : Store) :
    (history s events).1.filter (Served.isUnder q) =
      (history s (events.filter (Event.isUnder q))).1 ∧
    ∀ key, q.Owns key → (history s events).2.get? key =
      (history s (events.filter (Event.isUnder q))).2.get? key := by
  classical
  let own (key : Bytes) : Bool := decide (q.Owns key)
  have hown (key : Bytes) : own key = true ↔ q.Owns key := decide_eq_true_iff
  have hall := history_restrict hown hid s
  have halone := history_restrict hown
    (fun e he => hid e (List.mem_of_mem_filter he) : ∀ e ∈ events.filter (Event.isUnder q), _) s
  rw [List.filter_filter] at halone
  simp only [Bool.and_self] at halone
  obtain ⟨hanswers, hstores⟩ := Prod.mk.inj (hall.symm.trans halone)
  refine ⟨hanswers.trans ?_, fun key hkey => ?_⟩
  · refine List.filter_eq_self.2 fun x hx => ?_
    obtain ⟨e, he, hclient⟩ := exists_event_of_served hx
    have hunder : e.isUnder q = true := (List.mem_filter.1 he).2
    rwa [Event.isUnder, hclient] at hunder
  · rw [← Store.get?_restrict _ ((hown key).2 hkey), hstores,
      Store.get?_restrict _ ((hown key).2 hkey)]

/-- Two clients, where the prefix of one is the beginning of the prefix of the other. -/
def nestedClients : RedisQueue × RedisQueue :=
  (⟨RedisConfig.default⟩, ⟨{ RedisConfig.default with keyPrefix := "taskflow:task" }⟩)

/-- Both of the `nestedClients` push a task; the second one cancels its own, and the first one takes
its own. -/
def nestedPushes : List Event :=
  [.call nestedClients.1 (.push ⟨"echo", .null, none⟩ 0),
    .call nestedClients.2 (.push ⟨"echo", .null, none⟩ 0),
    .call nestedClients.2 (.cancel "1" .epoch), .call nestedClients.1 (.pop .epoch)]

/-- In `nestedPushes` the first client takes its task as if it were alone. -/
theorem history_isolated_nestedPushes :
    nestedClients.1.config.keyPrefix ≠ nestedClients.2.config.keyPrefix ∧
    (∀ e ∈ nestedPushes, e.NamesHexIds) ∧
    (history .empty nestedPushes).1.filter (Served.isUnder nestedClients.1) =
      (history .empty (nestedPushes.filter (Event.isUnder nestedClients.1))).1 := by
  have hid : ∀ e ∈ nestedPushes, e.NamesHexIds := by
    have hone : IsHexId "1" := by
      intro c hc
      obtain rfl : c = '1' := List.mem_singleton.1 hc
      decide
    simp [nestedPushes, Event.NamesHexIds, QueueCall.id?, hone]
  exact ⟨by decide, hid, (history_isolated hid .empty).1⟩

end RedisQueue

end TaskScheduler
