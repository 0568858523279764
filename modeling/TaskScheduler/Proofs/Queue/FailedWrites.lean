import TaskScheduler.Proofs.Queue.Accounts

/-!
# What a failed write leaves in the store

The scripts and the transaction of a report write first and set a time to live last, and the store
does not take back what was written when the last command is refused.  So a client whose time to
live is refused changes the store with calls that answer an error: it takes a queued task off with
`cancel` and writes a record with `report`.  No other failed write leaves a trace, however many
tasks were pushed before.
-/

namespace TaskScheduler

/-- Whether a call pushes, cancels or reports a task. -/
def QueueCall.isWrite : QueueCall → Bool
  | push _ _ | cancel _ _ | report _ _ => true
  | _ => false

/-- Whether the answer is an error. -/
def QueueAnswer.isError : QueueAnswer → Bool
  | pushed (.error _) | popped (.error _) | done (.error _) => true
  | record (.error _) | length (.error _) | emptiness (.error _) => true
  | _ => false

namespace RedisQueue

open Redis

variable {q client : RedisQueue} {s s' : Store} {n : Nat} {members : List Scored}
  {hash : String → FiniteMap Bytes Bytes}

/-! ### Stores that hold a queue -/

/-- `memberNumber?` reads a number from every member that a push writes, however large it was. -/
theorem exists_memberNumber? (k : Nat) : ∃ j, memberNumber? (memberText k) = some j := by
  have hascii : ∀ c ∈ Hex.padded k, c.toNat < 128 :=
    fun c hc => (Hex.isLower_of_mem_padded hc).toNat_lt
  unfold memberNumber? memberText scriptRead?
  rw [Bytes.map_ofNat_ofString hascii, Hex.readHex?_padded]
  exact ⟨_, rfl⟩

/-- The store shows a queue whose members were written by pushes, however many there were. -/
structure Keeps (q : RedisQueue) (s : Store) (n : Nat) (members : List Scored)
    (hash : String → FiniteMap Bytes Bytes) : Prop where
  /-- The store shows the queue. -/
  view : Shows q s n members hash
  /-- The counter has not passed its last number. -/
  counted : n < 2 ^ 63
  /-- Members are written as pushes write them. -/
  written : ∀ x ∈ members, ∃ k, x.member = memberText k

/-- The store holds a queue. -/
def HoldsQueue (q : RedisQueue) (s : Store) : Prop := ∃ n members hash, Keeps q s n members hash

/-- `HoldsQueue` holds of a store without keys. -/
theorem holdsQueue_empty (q : RedisQueue) : HoldsQueue q .empty :=
  ⟨0, [], _, .empty q, by decide, by simp⟩

/-! ### What no operation breaks -/

/-- A property of the members and the hashes that no operation breaks. -/
structure IsLasting (P : List Scored → (String → FiniteMap Bytes Bytes) → Prop) : Prop where
  /-- A push puts its member in the place of the same one. -/
  add : ∀ {members hash}, P members hash → ∀ score k,
    P (Store.insertScored ⟨score, memberText k⟩
      (members.filter fun x => x.member ≠ memberText k)) hash
  /-- Members leave the queue. -/
  drop : ∀ {members members' hash}, P members hash → members'.Sublist members → P members' hash
  /-- Texts are written into the hash of a task. -/
  write : ∀ {members hash}, P members hash → ∀ (id : String) {fields}, AreTexts fields →
    P members (Function.update hash id ((hash id).insertMany fields))
  /-- Hashes lapse. -/
  lapse : ∀ {members hash hash'}, P members hash →
    (∀ id, hash' id = hash id ∨ hash' id = .empty) → P members hash'

/-- What always holds `IsLasting`. -/
theorem isLasting_true : IsLasting fun _ _ => True :=
  ⟨fun _ _ _ => trivial, fun _ _ => trivial, fun _ _ _ _ => trivial, fun _ _ => trivial⟩

/-- The store holds a queue with a property. -/
def HoldsQueueWith (P : List Scored → (String → FiniteMap Bytes Bytes) → Prop) (q : RedisQueue)
    (s : Store) : Prop := ∃ n members hash, Keeps q s n members hash ∧ P members hash

variable {P : List Scored → (String → FiniteMap Bytes Bytes) → Prop}

/-- Clients with one prefix find the same queue in a store that `HoldsQueueWith` a property. -/
theorem HoldsQueueWith.of_keyPrefix (h : HoldsQueueWith P q s)
    (hq : client.config.keyPrefix = q.config.keyPrefix) : HoldsQueueWith P client s := by
  obtain ⟨n, members, hash, ⟨hview, hcounted, hwritten⟩, hP⟩ := h
  exact ⟨n, members, hash, ⟨hview.of_keyPrefix hq, hcounted, hwritten⟩, hP⟩

/-- A push succeeds and leaves a store that `HoldsQueueWith` the property, or it fails at the end of
the counter and nothing changes. -/
theorem Keeps.push (h : Keeps q s n members hash) (hP : P members hash) (hlast : IsLasting P)
    (e : Envelope) (priority : Int64) :
    (∃ err, q.push e priority s = (.error err, s)) ∨
      ∃ id s', q.push e priority s = (.ok id, s') ∧ HoldsQueueWith P q s' := by
  rcases Nat.lt_or_ge (n + 1) (2 ^ 63) with hn | hn
  · obtain ⟨s', hpush, hview'⟩ := h.view.push_number hn rfl e priority
    refine .inr ⟨_, s', hpush, _, _, _, ⟨hview', hn, fun x hx => ?_⟩, ?_⟩
    · rcases List.mem_cons.1 ((Store.insertScored_perm _ _).mem_iff.1 hx) with rfl | hx
      · exact ⟨_, rfl⟩
      · exact h.written x (List.mem_of_mem_filter hx)
    · exact hlast.write (hlast.add hP _ _) _ (areTexts_pushedFields _ e)
  · obtain rfl : n = 2 ^ 63 - 1 := by
      have := h.counted
      omega
    refine .inl ⟨.storeFailed StoreError.overflow.message, ?_⟩
    unfold RedisQueue.push
    rw [h.view.counter.incr_overflow]

/-- `take` keeps `HoldsQueueWith` a lasting property. -/
theorem HoldsQueueWith.take (h : HoldsQueueWith P q s) (hlast : IsLasting P) :
    HoldsQueueWith P q (q.take s).2 := by
  obtain ⟨n, members, hash, hkeeps, hP⟩ := h
  obtain ⟨hview, hcounted, hwritten⟩ := hkeeps
  cases members with
  | nil =>
    rw [hview.take_nil]
    exact ⟨n, [], hash, ⟨hview, hcounted, hwritten⟩, hP⟩
  | cons x rest =>
    obtain ⟨hx, hrest⟩ := List.forall_mem_cons.1 hwritten
    obtain ⟨k, hk⟩ := hx
    obtain ⟨j, hj⟩ := exists_memberNumber? k
    obtain ⟨s', htake, hview'⟩ := hview.take_cons (hk ▸ hj)
    rw [htake]
    have hP' := hlast.drop hP (List.sublist_cons_self x rest)
    exact ⟨n, rest, _, ⟨hview', hcounted, hrest⟩, hlast.write hP' _ (areTexts_singleton _ _)⟩

/-- A report keeps `HoldsQueueWith` a lasting property: it writes no member. -/
theorem HoldsQueueWith.report (h : HoldsQueueWith P q s) (hlast : IsLasting P) (r : TaskReport)
    (now : Timestamp) : HoldsQueueWith P q (q.report r now s).2 := by
  obtain ⟨n, members, hash, ⟨hview, hcounted, hwritten⟩, hP⟩ := h
  obtain ⟨answer, s', hreport, -, hview'⟩ := hview.report r now
  rw [hreport]
  exact ⟨n, members, _, ⟨hview', hcounted, hwritten⟩, hlast.write hP _ (areTexts_reportedFields _)⟩

/-- A pop keeps `HoldsQueueWith` a lasting property, as it is a `take` with perhaps a report. -/
theorem HoldsQueueWith.pop (h : HoldsQueueWith P q s) (hlast : IsLasting P) (now : Timestamp) :
    HoldsQueueWith P q (q.pop now s).2 := by
  have htake := h.take hlast
  rw [pop_eq]
  split
  next id reason s₁ heq =>
    rw [heq] at htake
    exact htake.report hlast _ now
  next => exact htake

/-- A cancelation keeps `HoldsQueueWith` a lasting property. -/
theorem HoldsQueueWith.cancel (h : HoldsQueueWith P q s) (hlast : IsLasting P) (id : String)
    (now : Timestamp) : HoldsQueueWith P q (q.cancel id now s).2 := by
  obtain ⟨n, members, hash, hkeeps, hP⟩ := h
  obtain ⟨hview, hcounted, hwritten⟩ := hkeeps
  by_cases hid : ∃ k, scriptRead? id.toList = some k ∧ ∃ x ∈ members, x.member = memberText k
  · obtain ⟨k, hk, hx⟩ := hid
    obtain ⟨answer, s', hcancel, -, hview'⟩ := hview.cancel_found hk hx now
    rw [hcancel]
    refine ⟨n, _, _, ⟨hview', hcounted, fun y hy => hwritten y (List.mem_of_mem_filter hy)⟩, ?_⟩
    exact hlast.write (hlast.drop hP List.filter_sublist) _ (areTexts_canceledFields now)
  · rw [hview.cancel_notFound (fun k hk x hx hxk => hid ⟨k, hk, x, hx, hxk⟩) now]
    exact ⟨n, members, hash, ⟨hview, hcounted, hwritten⟩, hP⟩

/-- Every call keeps `HoldsQueueWith` a lasting property. -/
theorem HoldsQueueWith.serve (h : HoldsQueueWith P q s) (hlast : IsLasting P) (c : QueueCall) :
    HoldsQueueWith P q (q.serve s c).2 := by
  cases c with
  | push e priority =>
    obtain ⟨n, members, hash, hkeeps, hP⟩ := h
    change HoldsQueueWith P q (q.push e priority s).2
    rcases hkeeps.push hP hlast e priority with ⟨err, hpush⟩ | ⟨id, s', hpush, h'⟩
    · rw [hpush]
      exact ⟨n, members, hash, hkeeps, hP⟩
    · rw [hpush]
      exact h'
  | pop now => exact h.pop hlast now
  | cancel id now => exact h.cancel hlast id now
  | report r now => exact h.report hlast r now
  | _ => exact h

/-- Every event of a client with the prefix keeps `HoldsQueueWith` a lasting property. -/
theorem HoldsQueueWith.step (h : HoldsQueueWith P q s) (hlast : IsLasting P) (e : Event)
    (hclient : ∀ client, e.client? = some client →
      client.config.keyPrefix = q.config.keyPrefix) : HoldsQueueWith P q (e.step s).2 := by
  cases e with
  | call client c =>
    have hprefix := hclient client rfl
    exact ((h.of_keyPrefix hprefix).serve hlast c).of_keyPrefix hprefix.symm
  | take client now =>
    have hprefix := hclient client rfl
    exact ((h.of_keyPrefix hprefix).take hlast).of_keyPrefix hprefix.symm
  | lapse key =>
    obtain ⟨n, members, hash, ⟨hview, hcounted, hwritten⟩, hP⟩ := h
    obtain ⟨hash', hview', hcases⟩ := hview.lapse key
    exact ⟨n, members, hash', ⟨hview', hcounted, hwritten⟩, hlast.lapse hP hcases⟩

/-- Every history of clients with one prefix keeps `HoldsQueueWith` a lasting property. -/
theorem HoldsQueueWith.history (h : HoldsQueueWith P q s) (hlast : IsLasting P)
    {events : List Event} (hclients : ∀ e ∈ events, ∀ client, e.client? = some client →
      client.config.keyPrefix = q.config.keyPrefix) :
    HoldsQueueWith P q (history s events).2 := by
  induction events generalizing s with
  | nil => exact h
  | cons e events ih =>
    obtain ⟨he, hevents⟩ := List.forall_mem_cons.1 hclients
    exact ih (h.step hlast e he) hevents

/-- Every history of clients with one prefix keeps `HoldsQueue`. -/
theorem HoldsQueue.history (h : HoldsQueue q s) {events : List Event}
    (hclients : ∀ e ∈ events, ∀ client, e.client? = some client →
      client.config.keyPrefix = q.config.keyPrefix) : HoldsQueue q (history s events).2 := by
  obtain ⟨n, members, hash, hkeeps⟩ := h
  obtain ⟨n', members', hash', hkeeps', -⟩ :=
    HoldsQueueWith.history ⟨n, members, hash, hkeeps, trivial⟩ isLasting_true hclients
  exact ⟨n', members', hash', hkeeps'⟩

/-! ### Failed writes -/

/-- A call answers an error and leaves another store. -/
def LeavesTrace (q : RedisQueue) (s : Store) (c : QueueCall) : Prop :=
  (q.serve s c).1.isError = true ∧ (q.serve s c).2 ≠ s

/-- A call comes to the point at which a record gets its time to live, and has changed the store by
then: a cancelation has found the member of its task, a report has fields that were not there. -/
def Alters (q : RedisQueue) (s : Store) : QueueCall → Prop
  | .cancel id _ => ∃ k members, scriptRead? id.toList = some k ∧
      s.zset? q.queueKey = .ok members ∧ ∃ x ∈ members, x.member = memberText k
  | .report r now => s.hset (q.taskKey r.id) (reportedFields (r.toRecord now)) ≠ .ok s
  | _ => False

/-- A cancelation `LeavesTrace` exactly when it finds its task and the time to live is refused. -/
theorem Keeps.leavesTrace_cancel_iff (h : Keeps q s n members hash) (id : String)
    (now : Timestamp) :
    q.LeavesTrace s (.cancel id now) ↔
      q.TtlRefused (.cancel id now) ∧ q.Alters s (.cancel id now) := by
  have hfinds : q.Alters s (.cancel id now) ↔
      ∃ k, scriptRead? id.toList = some k ∧ ∃ x ∈ members, x.member = memberText k := by
    unfold Alters
    rw [h.view.members]
    simp only [Except.ok.injEq, exists_and_left, exists_eq_left']
  rw [hfinds]
  by_cases hid : ∃ k, scriptRead? id.toList = some k ∧ ∃ x ∈ members, x.member = memberText k
  · rw [and_iff_left hid]
    obtain ⟨k, hk, hx⟩ := hid
    obtain ⟨answer, s', hcancel, hkept, hview'⟩ := h.view.cancel_found hk hx now
    have hserve : q.serve s (.cancel id now) = (.done answer, s') := by
      simp only [RedisQueue.serve, hcancel]
    unfold LeavesTrace
    rw [hserve]
    unfold IsKept at hkept
    constructor
    · rintro ⟨herror, -⟩
      refine Nat.lt_of_not_le fun hsecs => ?_
      rw [if_pos hsecs] at hkept
      subst hkept
      cases herror
    · intro hsecs
      rw [if_neg (Nat.not_le.2 hsecs)] at hkept
      obtain ⟨detail, rfl⟩ := hkept
      refine ⟨rfl, ?_⟩
      -- the member is gone
      rintro rfl
      have hsame := Except.ok.inj (hview'.members.symm.trans h.view.members)
      obtain ⟨x, hx, hxk⟩ := hx
      rw [List.filter_eq_self] at hsame
      simpa [hxk] using hsame x hx
  · have hserve : q.serve s (.cancel id now) = (.done (.error (.notFound id)), s) := by
      simp only [RedisQueue.serve,
        h.view.cancel_notFound (fun k hk x hx hxk => hid ⟨k, hk, x, hx, hxk⟩) now]
    unfold LeavesTrace
    rw [hserve]
    simp only [ne_eq, not_true_eq_false, and_false, hid]

/-- A report `LeavesTrace` exactly when it has new fields and the time to live is refused. -/
theorem Keeps.leavesTrace_report_iff (h : Keeps q s n members hash) (r : TaskReport)
    (now : Timestamp) :
    q.LeavesTrace s (.report r now) ↔
      q.TtlRefused (.report r now) ∧ q.Alters s (.report r now) := by
  obtain ⟨s₁, hhset, -⟩ := h.view.hset r.id (reportedFields (r.toRecord now))
  have hreport := report_eq_keep hhset
  have halters : q.Alters s (.report r now) ↔ s₁ ≠ s := by
    unfold Alters
    dsimp only
    rw [hhset, ne_eq, Except.ok.injEq]
  have hserve : q.serve s (.report r now) =
      (.done (q.keep r.id now s₁).1, (q.keep r.id now s₁).2) := by
    simp only [RedisQueue.serve, hreport]
  unfold LeavesTrace TtlRefused
  rw [halters, hserve]
  rcases Nat.lt_or_ge (Store.maxTtl now.millis) q.ttlSecs with hsecs | hsecs
  · obtain ⟨detail, hkeep⟩ := keep_error hsecs r.id s₁
    rw [hkeep]
    simp only [QueueAnswer.isError, hsecs]
  · rw [keep_ok hsecs r.id s₁]
    simp only [QueueAnswer.isError, Bool.false_eq_true, false_and, Nat.not_lt.2 hsecs]

/-- In a store that `HoldsQueue` a write `LeavesTrace` exactly when it `Alters` the store before the
time to live is refused. -/
theorem HoldsQueue.leavesTrace_iff (h : HoldsQueue q s) {c : QueueCall}
    (hwrite : c.isWrite = true) :
    q.LeavesTrace s c ↔ q.TtlRefused c ∧ q.Alters s c := by
  obtain ⟨n, members, hash, hkeeps⟩ := h
  cases c with
  | push e priority =>
    unfold LeavesTrace
    rcases hkeeps.push trivial isLasting_true e priority with ⟨err, hpush⟩ | ⟨id, s', hpush, -⟩ <;>
      simp [RedisQueue.serve, hpush, Alters, QueueAnswer.isError]
  | cancel id now => exact hkeeps.leavesTrace_cancel_iff id now
  | report r now => exact hkeeps.leavesTrace_report_iff r now
  | _ => cases hwrite

/-- In every store that clients of one prefix can reach, a write that answers an error leaves the
store as it was, unless the time to live is refused and the write has altered the store before. -/
theorem write_leavesTrace_iff {events : List Event}
    (hclients : ∀ e ∈ events, ∀ client, e.client? = some client →
      client.config.keyPrefix = q.config.keyPrefix) {c : QueueCall} (hwrite : c.isWrite = true) :
    q.LeavesTrace (history .empty events).2 c ↔
      q.TtlRefused c ∧ q.Alters (history .empty events).2 c :=
  ((holdsQueue_empty q).history hclients).leavesTrace_iff hwrite

/-- In the store after the push of `pushThenCancel` the cancelation of `patientClient` is a write
that leaves a trace. -/
theorem write_leavesTrace_iff_pushThenCancel :
    (∀ e ∈ pushThenCancel.take 1, ∀ client, e.client? = some client →
      client.config.keyPrefix = patientClient.config.keyPrefix) ∧
    (QueueCall.cancel "1" .epoch).isWrite = true ∧
    (patientClient.LeavesTrace (history .empty (pushThenCancel.take 1)).2 (.cancel "1" .epoch) ↔
      patientClient.TtlRefused (.cancel "1" .epoch) ∧
      patientClient.Alters (history .empty (pushThenCancel.take 1)).2 (.cancel "1" .epoch)) :=
  ⟨fun e he => keyPrefix_of_mem_pushThenCancel e (List.mem_of_mem_take he), rfl,
    write_leavesTrace_iff (fun e he => keyPrefix_of_mem_pushThenCancel e (List.mem_of_mem_take he))
      rfl⟩

/-- What a store `Shows` after the first push into it. -/
theorem shows_firstPush (q : RedisQueue) (e : Envelope) (priority : Int64) :
    Shows q (history .empty [.call q (.push e priority)]).2 1
      [⟨Binary64.roundInt priority.toInt, memberText 1⟩]
      (Function.update (fun _ => .empty) "1"
        (FiniteMap.empty.insertMany (pushedFields "1" e))) := by
  obtain ⟨s', hpush, hview'⟩ := (Shows.empty q).push (by decide) e priority
  have hserve : q.serve .empty (.push e priority) = (.pushed (.ok "1"), s') := by
    simp only [RedisQueue.serve, hpush]
    rfl
  have hstore : (history .empty [.call q (.push e priority)]).2 = s' := by
    change (q.serve .empty (.push e priority)).2 = s'
    rw [hserve]
  rw [hstore]
  exact hview'

/-- A client whose time to live is refused `LeavesTrace` when it cancels what it has just pushed. -/
theorem leavesTrace_cancel_pushed {now : Timestamp} (hsecs : Store.maxTtl now.millis < q.ttlSecs)
    (e : Envelope) (priority : Int64) :
    q.LeavesTrace (history .empty [.call q (.push e priority)]).2 (.cancel "1" now) := by
  have hview := shows_firstPush q e priority
  have hkeeps : Keeps q _ 1 _ _ := ⟨hview, by decide, by simp⟩
  have hread : scriptRead? "1".toList = some 1 := scriptRead?_idText (n := 1) (by decide)
  exact (hkeeps.leavesTrace_cancel_iff "1" now).2
    ⟨hsecs, 1, _, hread, hview.members, _, List.mem_singleton_self _, rfl⟩

/-- The settings of `patientClient` are valid, and yet its failed cancelation leaves a trace. -/
theorem exists_leavesTrace : ∃ (q : RedisQueue) (events : List Event) (c : QueueCall),
    q.config.validate = .ok () ∧ (∀ e ∈ events, e.client? = some q) ∧ c.isWrite = true ∧
    q.LeavesTrace (history .empty events).2 c := by
  refine ⟨patientClient, pushThenCancel.take 1, .cancel "1" .epoch, rfl, ?_, rfl, ?_⟩
  · intro e he
    cases List.mem_singleton.1 he
    rfl
  · exact leavesTrace_cancel_pushed (by decide) _ _

end RedisQueue

end TaskScheduler
