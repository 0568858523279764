import Mathlib.Data.List.Nodup
import Mathlib.Data.List.Perm.Basic
import TaskScheduler.Proofs.Queue.Calls
import TaskScheduler.Proofs.Queue.RedisRecord

/-!
# Every pushed task is accounted for

Clients that share a prefix work on one store, in any order.  A `pop` may be cut in two, because the
report on a body that cannot be read is a call of its own, and keys with a time to live may lapse.
Every pushed id is queued, or was handed out by one `pop`, or was taken off by one `cancel`.  The
answer of that `cancel` is an error when the time to live of its client is refused, and then no
client knows where the task went.
-/

namespace TaskScheduler.RedisQueue

open Redis

/-! ### Histories -/

/-- What happens to a store that clients share. -/
inductive Event where
  /-- A client makes a call. -/
  | call (client : RedisQueue) (c : QueueCall)
  /-- A client takes the first task and will report it later if it cannot read its body. -/
  | take (client : RedisQueue) (now : Timestamp)
  /-- The time to live of a key ends, if it has one. -/
  | lapse (key : Bytes)

/-- Who acts in an event. -/
def Event.client? : Event → Option RedisQueue
  | call client _ => some client
  | take client _ => some client
  | lapse _ => none

/-- How many tasks are pushed in an event. -/
def Event.pushes : Event → Nat
  | call _ (.push _ _) => 1
  | _ => 0

/-- Whether an event is a cancelation. -/
def Event.isCancel : Event → Bool
  | call _ (.cancel _ _) => true
  | _ => false

/-- A call with its answer. -/
structure Served where
  /-- Who called. -/
  client : RedisQueue
  /-- The call. -/
  call : QueueCall
  /-- The answer. -/
  answer : QueueAnswer

/-- What is answered in an event, and the store afterwards. -/
def Event.step (s : Store) : Event → List Served × Store
  | call client c =>
    let (answer, s) := client.serve s c
    ([⟨client, c, answer⟩], s)
  | take client now =>
    let (answer, s) := client.take s
    ([⟨client, .pop now, .popped answer⟩], s)
  | lapse key => ([], s.lapse key)

/-- What is answered in a history of events, oldest first, and the store afterwards. -/
def history (s : Store) : List Event → List Served × Store
  | [] => ([], s)
  | e :: events =>
    let (served, s) := e.step s
    let (rest, s) := history s events
    (served ++ rest, s)

/-! ### What becomes of ids -/

/-- The id of the task that a caller of `cancel` means, however it is spelled. -/
def named (id : String) : Option String := (scriptRead? id.toList).map idText

namespace Served

/-- The id that `push` gave. -/
def pushed (x : Served) : List String :=
  match x.answer with
  | .pushed (.ok id) => [id]
  | _ => []

/-- The id that `pop` handed out, as a task or as one that cannot be read. -/
def consumed (x : Served) : List String :=
  match x.answer with
  | .popped (.ok task) => [task.id]
  | .popped (.error (.corrupt id _)) => [id]
  | _ => []

/-- The id that `cancel` took off with success. -/
def removed (x : Served) : List String :=
  match x.call, x.answer with
  | .cancel id _, .done (.ok ()) => (named id).toList
  | _, _ => []

/-- The id that `cancel` meant when a command of the store failed. -/
def lost (x : Served) : List String :=
  match x.call, x.answer with
  | .cancel id _, .done (.error (.storeFailed _)) => (named id).toList
  | _, _ => []

/-- The id that an answer takes out of the queue. -/
def gone (x : Served) : List String := x.consumed ++ (x.removed ++ x.lost)

end Served

/-- The ids that `push` gave, oldest first. -/
def pushedIds (log : List Served) : List String := log.flatMap Served.pushed

/-- The ids that `pop` handed out. -/
def consumedIds (log : List Served) : List String := log.flatMap Served.consumed

/-- The ids that `cancel` took off with success. -/
def removedIds (log : List Served) : List String := log.flatMap Served.removed

/-- The ids that `cancel` meant when a command of the store failed. -/
def lostIds (log : List Served) : List String := log.flatMap Served.lost

/-- The ids that answers take out of the queue. -/
def goneIds (log : List Served) : List String := log.flatMap Served.gone

/-- The ids of the members of the sorted set. -/
def idsOf (members : List Scored) : List String :=
  members.filterMap fun x => (memberNumber? x.member).map idText

/-- The ids of the queued tasks: what `idsOf` makes of the sorted set that the store has. -/
def queuedIds (q : RedisQueue) (s : Store) : List String :=
  match s.zset? q.queueKey with
  | .ok members => idsOf members
  | .error _ => []

/-! ### The layout of a store -/

/-- The store `Shows` a queue whose members stand for distinct pushes, and whose hashes are
texts. -/
structure Layout (q : RedisQueue) (s : Store) (n : Nat) (members : List Scored) : Prop where
  /-- The store shows the queue. -/
  view : ∃ hash, Shows q s n members hash ∧ ∀ id, IsText (hash id)
  /-- Members stand for pushes. -/
  ids : ∀ x ∈ members, ∃ k, 1 ≤ k ∧ k ≤ n ∧ x.member = memberText k
  /-- No member occurs twice. -/
  distinct : (members.map Scored.member).Nodup
  /-- Scripts can tell the numbers of the pushes apart. -/
  few : n ≤ 2 ^ 53

variable {q client : RedisQueue} {s : Store} {n : Nat} {members : List Scored}

/-- A store without keys has the `Layout` of an empty queue. -/
theorem Layout.empty (q : RedisQueue) : Layout q .empty 0 [] where
  view := ⟨_, .empty q, fun _ => isText_empty⟩
  ids := by simp
  distinct := List.nodup_nil
  few := by decide

/-- Clients with one prefix find the same `Layout`. -/
theorem Layout.of_keyPrefix (h : Layout q s n members)
    (hq : client.config.keyPrefix = q.config.keyPrefix) : Layout client s n members := by
  obtain ⟨hash, hview, htext⟩ := h.view
  exact ⟨⟨hash, hview.of_keyPrefix hq, htext⟩, h.ids, h.distinct, h.few⟩

/-! ### Ids of members -/

/-- The first of the `idsOf` members is the id of the push that its member stands for. -/
theorem idsOf_cons {x : Scored} {k : Nat} (hx : x.member = memberText k) (hk : k ≤ 2 ^ 53)
    (rest : List Scored) : idsOf (x :: rest) = idText k :: idsOf rest := by
  unfold idsOf
  rw [List.filterMap_cons_some]
  rw [hx, memberNumber?_memberText hk]
  rfl

/-- An id is among the `idsOf` members exactly when the member of its push is there. -/
theorem Layout.mem_idsOf_iff (h : Layout q s n members) {k : Nat} :
    idText k ∈ idsOf members ↔ ∃ x ∈ members, x.member = memberText k := by
  unfold idsOf
  rw [List.mem_filterMap]
  refine exists_congr fun x => and_congr_right fun hx => ?_
  obtain ⟨j, -, hj, hxj⟩ := h.ids x hx
  rw [hxj, memberNumber?_memberText (hj.trans h.few), Option.map_some, Option.some.injEq,
    idText_injective.eq_iff, memberText_injective.eq_iff]

/-- The `queuedIds` are the `idsOf` the members that the store shows. -/
theorem Layout.queuedIds_eq (h : Layout q s n members) : queuedIds q s = idsOf members := by
  obtain ⟨hash, hview, -⟩ := h.view
  unfold queuedIds
  rw [hview.members]

/-! ### Operations keep the layout -/

/-- A push gives the next id and puts it among the `idsOf` members. -/
theorem Layout.push (h : Layout q s n members) (hn : n + 1 ≤ 2 ^ 53) (e : Envelope)
    (priority : Int64) :
    ∃ s' members', q.push e priority s = (.ok (idText (n + 1)), s') ∧
      Layout q s' (n + 1) members' ∧ (idsOf members').Perm (idText (n + 1) :: idsOf members) := by
  obtain ⟨hash, hview, htext⟩ := h.view
  obtain ⟨s', hpush, hview'⟩ := hview.push hn e priority
  have hfresh : ∀ x ∈ members, x.member ≠ memberText (n + 1) := by
    intro x hx hxn
    obtain ⟨k, -, hk, hxk⟩ := h.ids x hx
    have := memberText_injective (hxk.symm.trans hxn)
    omega
  rw [List.filter_eq_self.2 (by simpa using hfresh)] at hview'
  have hperm := Store.insertScored_perm
    ⟨Binary64.roundInt priority.toInt, memberText (n + 1)⟩ members
  refine ⟨s', _, hpush, ⟨⟨_, hview', ?_⟩, ?_, ?_, hn⟩, ?_⟩
  · exact isText_update htext ((htext _).insertMany (areTexts_pushedFields _ e))
  · intro x hx
    rcases List.mem_cons.1 (hperm.mem_iff.1 hx) with rfl | hx
    · exact ⟨n + 1, by omega, by omega, rfl⟩
    · obtain ⟨k, hk, hkn, hxk⟩ := h.ids x hx
      exact ⟨k, hk, by omega, hxk⟩
  · exact Store.nodup_insertScored h.distinct hfresh
  · have hids : idsOf (⟨Binary64.roundInt priority.toInt, memberText (n + 1)⟩ :: members) =
        idText (n + 1) :: idsOf members := idsOf_cons rfl hn members
    exact hids ▸ hperm.filterMap _

/-- What `taken` makes of a body among texts is consumed with the id of the task, whether or not the
body can be read. -/
theorem consumed_taken {fields : FiniteMap Bytes Bytes} (h : IsText fields) (id : String)
    (now : Timestamp) :
    Served.consumed ⟨client, .pop now, .popped (taken id (fields.get? (Bytes.ofString "data")))⟩ =
      [id] := by
  unfold taken
  split
  next => rfl
  next data hdata =>
    obtain ⟨body, rfl⟩ := h.exists_text hdata
    rw [Bytes.toString?_ofString]
    dsimp only
    cases Envelope.decode? body <;> rfl

/-- `take` hands out the id of the first member, if there is one. -/
theorem Layout.take (h : Layout q s n members) (client : RedisQueue) (now : Timestamp) :
    ∃ answer s' members', q.take s = (answer, s') ∧ Layout q s' n members' ∧
      idsOf members = Served.consumed ⟨client, .pop now, .popped answer⟩ ++ idsOf members' := by
  obtain ⟨hash, hview, htext⟩ := h.view
  cases members with
  | nil => exact ⟨_, s, [], hview.take_nil, h, rfl⟩
  | cons x rest =>
    obtain ⟨k, hk, hkn, hxk⟩ := h.ids x List.mem_cons_self
    have hk53 : k ≤ 2 ^ 53 := hkn.trans h.few
    have hnumber : memberNumber? x.member = some k := by rw [hxk, memberNumber?_memberText hk53]
    obtain ⟨s', htake, hview'⟩ := hview.take_cons hnumber
    refine ⟨_, s', rest, htake, ⟨⟨_, hview', ?_⟩, ?_, ?_, h.few⟩, ?_⟩
    · exact isText_update htext ((htext _).insertMany (areTexts_singleton _ _))
    · exact fun y hy => h.ids y (List.mem_cons_of_mem _ hy)
    · exact (List.nodup_cons.1 h.distinct).2
    · rw [consumed_taken (htext _), idsOf_cons hxk hk53]
      rfl

/-- A report leaves the sorted set, and with it the `Layout`. -/
theorem Layout.report (h : Layout q s n members) (r : TaskReport) (now : Timestamp) :
    Layout q (q.report r now s).2 n members := by
  obtain ⟨hash, hview, htext⟩ := h.view
  obtain ⟨answer, s', hreport, -, hview'⟩ := hview.report r now
  rw [hreport]
  have hwritten := areTexts_reportedFields (r.toRecord now)
  exact ⟨⟨_, hview', isText_update htext ((htext _).insertMany hwritten)⟩, h.ids, h.distinct, h.few⟩

/-- If what is `named` by the id of a cancelation is not queued, the answer is `notFound` and the
store stays as it is. -/
theorem Layout.cancel_notFound (h : Layout q s n members) {id : String}
    (hid : ∀ i, named id = some i → i ∉ idsOf members) (now : Timestamp) :
    q.cancel id now s = (.error (.notFound id), s) := by
  obtain ⟨hash, hview, -⟩ := h.view
  refine hview.cancel_notFound (fun k hk x hx hxk => ?_) now
  refine hid (idText k) ?_ (h.mem_idsOf_iff.2 ⟨x, hx, hxk⟩)
  unfold named
  rw [hk]
  rfl

/-- Canceling the queued task that an id has `named` takes it off, and the answer depends on the
time to live. -/
theorem Layout.cancel_found (h : Layout q s n members) {id i : String} (hid : named id = some i)
    (hi : i ∈ idsOf members) (now : Timestamp) :
    ∃ answer s' members', q.cancel id now s = (answer, s') ∧ q.IsKept now answer ∧
      Layout q s' n members' ∧ (idsOf members).Perm (i :: idsOf members') := by
  obtain ⟨hash, hview, htext⟩ := h.view
  obtain ⟨k, hk, rfl⟩ := Option.map_eq_some_iff.1 hid
  obtain ⟨x, hx, hxk⟩ := h.mem_idsOf_iff.1 hi
  obtain ⟨answer, s', hcancel, hkept, hview'⟩ := hview.cancel_found hk ⟨x, hx, hxk⟩ now
  obtain ⟨j, -, hj, hxj⟩ := h.ids x hx
  obtain rfl : k = j := memberText_injective (hxk.symm.trans hxj)
  refine ⟨answer, s', _, hcancel, hkept, ⟨⟨_, hview', ?_⟩, ?_, ?_, h.few⟩, ?_⟩
  · exact isText_update htext ((htext _).insertMany (areTexts_canceledFields now))
  · exact fun y hy => h.ids y (List.mem_of_mem_filter hy)
  · exact h.distinct.sublist (List.filter_sublist.map _)
  · rw [← idsOf_cons hxk (hj.trans h.few), ← hxk]
    exact (Store.perm_cons_filter h.distinct hx).filterMap _

/-- A lapse of any key leaves the sorted set, and with it the `Layout`. -/
theorem Layout.lapse (h : Layout q s n members) (key : Bytes) :
    Layout q (s.lapse key) n members := by
  obtain ⟨hash, hview, htext⟩ := h.view
  obtain ⟨hash', hview', hcases⟩ := hview.lapse key
  refine ⟨⟨hash', hview', fun id => ?_⟩, h.ids, h.distinct, h.few⟩
  rcases hcases id with hid | hid
  · rw [hid]
    exact htext id
  · rw [hid]
    exact isText_empty

/-- `pop` hands out what `take` does, whether or not a report follows. -/
theorem Layout.pop (h : Layout q s n members) (client : RedisQueue) (now : Timestamp) :
    ∃ answer s' members', q.pop now s = (answer, s') ∧ Layout q s' n members' ∧
      idsOf members = Served.consumed ⟨client, .pop now, .popped answer⟩ ++ idsOf members' := by
  obtain ⟨answer, s', members', htake, h', hids⟩ := h.take client now
  rw [pop_eq, htake]
  split
  next id reason s₁ heq =>
    obtain ⟨rfl, rfl⟩ := Prod.mk.inj heq
    exact ⟨_, _, members', rfl, h'.report _ now, hids⟩
  next => exact ⟨answer, s', members', rfl, h', hids⟩

/-! ### One event -/

/-- A client whose time to live is refused cancels a queued task. -/
def Event.IsRefused (q : RedisQueue) (s : Store) (e : Event) : Prop :=
  ∃ client id now i, e = .call client (.cancel id now) ∧ named id = some i ∧ i ∈ queuedIds q s ∧
    Store.maxTtl now.millis < client.ttlSecs

/-- The answers of an event account for the ids that enter and leave the queue. -/
structure Balanced (q : RedisQueue) (n : Nat) (members : List Scored) (pushes : Nat)
    (refused : Prop) (served : List Served) (s' : Store) : Prop where
  /-- The layout is kept, and every id that enters or leaves the queue is in an answer. -/
  layout : ∃ members', Layout q s' (n + pushes) members' ∧
    (pushedIds served ++ idsOf members).Perm (idsOf members' ++ goneIds served)
  /-- Pushes give the ids in a row. -/
  pushed : pushedIds served = (List.range' (n + 1) pushes).map idText
  /-- An id is lost when a time to live is refused, and never else. -/
  lost : lostIds served = [] ↔ ¬ refused

/-- An event that neither pushes nor takes an id is `Balanced`. -/
theorem Balanced.of_idle (h : Layout q s n members) {served : List Served} {refused : Prop}
    (hpushed : pushedIds served = []) (hgone : goneIds served = []) (hlost : lostIds served = [])
    (hrefused : ¬ refused) : Balanced q n members 0 refused served s where
  layout := ⟨members, h, by rw [hpushed, hgone, List.append_nil, List.nil_append]⟩
  pushed := hpushed
  lost := iff_of_true hlost hrefused

/-- A `pop`, or its first half, is `Balanced`: it hands out the first queued id. -/
theorem Balanced.of_taken {s' : Store} {members' : List Scored} (h : Layout q s' n members')
    {now : Timestamp} {answer : Except QueueError PoppedTask} {refused : Prop}
    (hids : idsOf members = Served.consumed ⟨client, .pop now, .popped answer⟩ ++ idsOf members')
    (hrefused : ¬ refused) :
    Balanced q n members 0 refused [⟨client, .pop now, .popped answer⟩] s' where
  layout := by
    refine ⟨members', h, ?_⟩
    rw [hids]
    simp only [pushedIds, goneIds, Served.pushed, Served.gone, Served.removed, Served.lost,
      List.flatMap_cons, List.flatMap_nil, List.append_nil, List.nil_append]
    exact List.perm_append_comm
  pushed := rfl
  lost := iff_of_true rfl hrefused

/-- Only a cancelation can be refused (`IsRefused`). -/
theorem Event.not_isRefused {e : Event} (h : e.isCancel = false) : ¬ e.IsRefused q s := by
  rintro ⟨client, id, now, i, rfl, -⟩
  exact absurd h (by simp [isCancel])

/-- A cancelation is `Balanced`: it takes off the queued task that its id means, or nothing, and the
id is lost if the time to live is refused. -/
theorem Layout.balanced_cancel (h : Layout q s n members)
    (hclient : client.config.keyPrefix = q.config.keyPrefix) (id : String) (now : Timestamp) :
    Balanced q n members 0 (Event.IsRefused q s (.call client (.cancel id now)))
      (Event.step s (.call client (.cancel id now))).1
      (Event.step s (.call client (.cancel id now))).2 := by
  have hc := h.of_keyPrefix hclient
  have hstep : Event.step s (.call client (.cancel id now)) =
      ([⟨client, .cancel id now, .done (client.cancel id now s).1⟩],
        (client.cancel id now s).2) := rfl
  rw [hstep]
  by_cases hfound : ∃ i, named id = some i ∧ i ∈ idsOf members
  · obtain ⟨i, hid, hi⟩ := hfound
    obtain ⟨answer, s', members', hcancel, hkept, h', hperm⟩ := hc.cancel_found hid hi now
    have hlayout : Layout q s' n members' := h'.of_keyPrefix hclient.symm
    rw [hcancel]
    unfold IsKept at hkept
    split at hkept
    next hsecs =>
      subst hkept
      refine ⟨⟨members', hlayout, ?_⟩, rfl, iff_of_true rfl ?_⟩
      · simpa [pushedIds, goneIds, Served.pushed, Served.gone, Served.consumed, Served.removed,
          Served.lost, hid] using hperm.trans (List.perm_append_singleton i _).symm
      · rintro ⟨client', id', now', i', heq, -, -, hrefused⟩
        injection heq with hclient' hcall
        injection hcall with hid' hnow'
        subst hclient' hnow'
        omega
    next hsecs =>
      obtain ⟨detail, rfl⟩ := hkept
      refine ⟨⟨members', hlayout, ?_⟩, rfl, iff_of_false ?_ ?_⟩
      · simpa [pushedIds, goneIds, Served.pushed, Served.gone, Served.consumed, Served.removed,
          Served.lost, hid] using hperm.trans (List.perm_append_singleton i _).symm
      · simp [lostIds, Served.lost, hid]
      · refine not_not_intro ⟨client, id, now, i, rfl, hid, ?_, Nat.lt_of_not_le hsecs⟩
        rw [h.queuedIds_eq]
        exact hi
  · have hnone : ∀ i, named id = some i → i ∉ idsOf members := fun i hid hi => hfound ⟨i, hid, hi⟩
    rw [hc.cancel_notFound hnone]
    refine .of_idle h rfl rfl rfl ?_
    rintro ⟨client', id', now', i, heq, hid, hi, -⟩
    injection heq with hclient' hcall
    injection hcall with hid'
    subst hid'
    rw [h.queuedIds_eq] at hi
    exact hnone i hid hi

/-- Every event of a client with the prefix is `Balanced`, as long as there is room for its
pushes. -/
theorem Layout.balanced (h : Layout q s n members) (e : Event)
    (hclient : ∀ client, e.client? = some client → client.config.keyPrefix = q.config.keyPrefix)
    (hn : n + e.pushes ≤ 2 ^ 53) :
    Balanced q n members e.pushes (e.IsRefused q s) (e.step s).1 (e.step s).2 := by
  cases e with
  | take client now =>
    have hprefix := hclient client rfl
    obtain ⟨answer, s', members', htake, h', hids⟩ :=
      (h.of_keyPrefix hprefix).take client now
    have hstep : Event.step s (.take client now) = ([⟨client, .pop now, .popped answer⟩], s') := by
      simp only [Event.step, htake]
    rw [hstep]
    exact .of_taken (h'.of_keyPrefix hprefix.symm) hids (Event.not_isRefused rfl)
  | lapse key =>
    exact .of_idle (h.lapse key) rfl rfl rfl (Event.not_isRefused rfl)
  | call client c =>
    have hprefix := hclient client rfl
    have hc := h.of_keyPrefix hprefix
    cases c with
    | push e priority =>
      obtain ⟨s', members', hpush, h', hperm⟩ := hc.push hn e priority
      have hstep : Event.step s (.call client (.push e priority)) =
          ([⟨client, .push e priority, .pushed (.ok (idText (n + 1)))⟩], s') := by
        simp only [Event.step, serve, hpush]
      rw [hstep]
      refine ⟨⟨members', h'.of_keyPrefix hprefix.symm, ?_⟩, rfl,
        iff_of_true rfl (Event.not_isRefused rfl)⟩
      simpa [pushedIds, goneIds, Served.pushed, Served.gone, Served.consumed, Served.removed,
        Served.lost] using hperm.symm
    | pop now =>
      obtain ⟨answer, s', members', hpop, h', hids⟩ := hc.pop client now
      have hstep : Event.step s (.call client (.pop now)) =
          ([⟨client, .pop now, .popped answer⟩], s') := by
        simp only [Event.step, serve, hpop]
      rw [hstep]
      exact .of_taken (h'.of_keyPrefix hprefix.symm) hids (Event.not_isRefused rfl)
    | cancel id now => exact h.balanced_cancel hprefix id now
    | report r now =>
      have h' : Layout q (client.report r now s).2 n members :=
        (hc.report r now).of_keyPrefix hprefix.symm
      exact .of_idle h' rfl rfl rfl (Event.not_isRefused rfl)
    | get id now =>
      exact .of_idle h rfl rfl rfl (Event.not_isRefused rfl)
    | len =>
      exact .of_idle h rfl rfl rfl (Event.not_isRefused rfl)
    | isEmpty =>
      exact .of_idle h rfl rfl rfl (Event.not_isRefused rfl)

/-! ### Histories of events -/

/-- How many tasks are pushed in a history. -/
def totalPushes : List Event → Nat
  | [] => 0
  | e :: events => e.pushes + totalPushes events

/-- At some point of a history a client whose time to live is refused cancels a queued task. -/
def IsRefusedIn (q : RedisQueue) (s : Store) (events : List Event) : Prop :=
  ∃ before e after, events = before ++ e :: after ∧ e.IsRefused q (history s before).2

/-- `IsRefusedIn` at a history is a refusal at its first event or in the rest of it. -/
theorem isRefusedIn_cons {e : Event} {events : List Event} :
    IsRefusedIn q s (e :: events) ↔ e.IsRefused q s ∨ IsRefusedIn q (e.step s).2 events := by
  constructor
  · rintro ⟨before, e', after, heq, hrefused⟩
    cases before with
    | nil =>
      obtain ⟨rfl, -⟩ := List.cons.inj heq
      exact .inl hrefused
    | cons e₀ before =>
      obtain ⟨rfl, hevents⟩ := List.cons.inj heq
      exact .inr ⟨before, e', after, hevents, hrefused⟩
  · rintro (hrefused | ⟨before, e', after, rfl, hrefused⟩)
    · exact ⟨[], e, events, rfl, hrefused⟩
    · exact ⟨e :: before, e', after, rfl, hrefused⟩

/-- If two histories after each other are `Balanced`, so are both together. -/
theorem Balanced.append {s₁ s₂ : Store} {p₁ p₂ : Nat} {r₁ r₂ : Prop} {served₁ served₂ : List Served}
    (h₁ : Balanced q n members p₁ r₁ served₁ s₁)
    (h₂ : ∀ members₁, Layout q s₁ (n + p₁) members₁ →
      Balanced q (n + p₁) members₁ p₂ r₂ served₂ s₂) :
    Balanced q n members (p₁ + p₂) (r₁ ∨ r₂) (served₁ ++ served₂) s₂ := by
  obtain ⟨⟨members₁, hlayout₁, hperm₁⟩, hpushed₁, hlost₁⟩ := h₁
  obtain ⟨⟨members₂, hlayout₂, hperm₂⟩, hpushed₂, hlost₂⟩ := h₂ members₁ hlayout₁
  refine ⟨⟨members₂, Nat.add_assoc n p₁ p₂ ▸ hlayout₂, ?_⟩, ?_, ?_⟩
  · rw [List.perm_iff_count] at hperm₁ hperm₂ ⊢
    intro id
    have hcount₁ := hperm₁ id
    have hcount₂ := hperm₂ id
    simp only [pushedIds, goneIds, List.flatMap_append, List.count_append] at hcount₁ hcount₂ ⊢
    omega
  · have hrange : List.range' (n + 1) (p₁ + p₂) =
        List.range' (n + 1) p₁ ++ List.range' (n + p₁ + 1) p₂ := by
      rw [Nat.add_right_comm n p₁ 1, List.range'_append_1]
    rw [hrange, List.map_append, ← hpushed₁, ← hpushed₂]
    exact List.flatMap_append
  · have hlost : lostIds (served₁ ++ served₂) = lostIds served₁ ++ lostIds served₂ :=
      List.flatMap_append
    rw [hlost, List.append_eq_nil_iff, hlost₁, hlost₂, not_or]

/-- Every history of clients with one prefix is `Balanced`, as long as there is room for its
pushes. -/
theorem Layout.balanced_history (events : List Event) :
    ∀ {s n members}, Layout q s n members →
      (∀ e ∈ events, ∀ client, e.client? = some client →
        client.config.keyPrefix = q.config.keyPrefix) →
      n + totalPushes events ≤ 2 ^ 53 →
      Balanced q n members (totalPushes events) (IsRefusedIn q s events)
        (RedisQueue.history s events).1 (RedisQueue.history s events).2 := by
  induction events with
  | nil =>
    intro s n members h hclients hn
    refine .of_idle h rfl rfl rfl ?_
    rintro ⟨before, e, after, heq, -⟩
    exact absurd heq (by simp)
  | cons e events ih =>
    intro s n members h hclients hn
    have hpushes : totalPushes (e :: events) = e.pushes + totalPushes events := rfl
    rw [hpushes] at hn ⊢
    rw [isRefusedIn_cons]
    have hfirst := h.balanced e (hclients e List.mem_cons_self) (by omega)
    refine hfirst.append fun members₁ h₁ => ?_
    exact ih h₁ (fun e' he' => hclients e' (List.mem_cons_of_mem _ he')) (by omega)

/-- What answers take out of the queue are the `consumedIds`, the `removedIds` and the `lostIds`. -/
theorem goneIds_perm (log : List Served) :
    (goneIds log).Perm (consumedIds log ++ removedIds log ++ lostIds log) := by
  have hrest : (log.flatMap fun x => x.removed ++ x.lost).Perm (removedIds log ++ lostIds log) :=
    (List.flatMap_append_perm log Served.removed Served.lost).symm
  have hall : (goneIds log).Perm
      (consumedIds log ++ log.flatMap fun x => x.removed ++ x.lost) :=
    (List.flatMap_append_perm log Served.consumed fun x => x.removed ++ x.lost).symm
  rw [List.append_assoc]
  exact hall.trans (hrest.append_left _)

/-- Every one of the `pushedIds` is queued, consumed, removed or lost, and only one of these,
once. -/
theorem pushedIds_perm {events : List Event}
    (hclients : ∀ e ∈ events, ∀ client, e.client? = some client →
      client.config.keyPrefix = q.config.keyPrefix)
    (hpushes : totalPushes events < 2 ^ 53) :
    (pushedIds (history .empty events).1).Perm
      (queuedIds q (history .empty events).2 ++ consumedIds (history .empty events).1 ++
        removedIds (history .empty events).1 ++ lostIds (history .empty events).1) := by
  obtain ⟨⟨members, hlayout, hperm⟩, -, -⟩ :=
    (Layout.empty q).balanced_history events hclients (by omega)
  rw [hlayout.queuedIds_eq]
  have hnone : idsOf [] = [] := rfl
  rw [hnone, List.append_nil] at hperm
  refine hperm.trans ?_
  rw [List.append_assoc, List.append_assoc, ← List.append_assoc (consumedIds _)]
  exact (goneIds_perm _).append_left _

/-- No push gives an id that another one gave: the `pushedIds` of a history are distinct. -/
theorem nodup_pushedIds {events : List Event}
    (hclients : ∀ e ∈ events, ∀ client, e.client? = some client →
      client.config.keyPrefix = q.config.keyPrefix)
    (hpushes : totalPushes events < 2 ^ 53) : (pushedIds (history .empty events).1).Nodup := by
  rw [((Layout.empty q).balanced_history events hclients (by omega)).pushed]
  exact (List.nodup_range' 1).map idText_injective

/-- There are `lostIds` exactly in the histories in which a client whose time to live is refused
cancels a queued task. -/
theorem lostIds_eq_nil_iff {events : List Event}
    (hclients : ∀ e ∈ events, ∀ client, e.client? = some client →
      client.config.keyPrefix = q.config.keyPrefix)
    (hpushes : totalPushes events < 2 ^ 53) :
    lostIds (history .empty events).1 = [] ↔ ¬ IsRefusedIn q .empty events :=
  ((Layout.empty q).balanced_history events hclients (by omega)).lost

/-- If pushed ids are those that were kept and those that were lost, they are those that were kept
exactly when nothing was lost. -/
theorem perm_without_lost_iff {pushed kept lost : List String} (h : pushed.Perm (kept ++ lost)) :
    pushed.Perm kept ↔ lost = [] := by
  constructor
  · intro hkept
    have hlength := h.length_eq.symm.trans hkept.length_eq
    rw [List.length_append] at hlength
    exact List.eq_nil_of_length_eq_zero (by omega)
  · intro hlost
    rwa [hlost, List.append_nil] at h

/-- The `pushedIds` of a history are distinct.  Each of them is queued, or was consumed by one
`pop`, or was removed by one `cancel` with success, or was taken off by one `cancel` that answered
an error.  The first three groups account for every id exactly when no client whose time to live is
refused ever cancels a queued task. -/
theorem accounted_iff {events : List Event}
    (hclients : ∀ e ∈ events, ∀ client, e.client? = some client →
      client.config.keyPrefix = q.config.keyPrefix)
    (hpushes : totalPushes events < 2 ^ 53) :
    (pushedIds (history .empty events).1).Nodup ∧
    (pushedIds (history .empty events).1).Perm
      (queuedIds q (history .empty events).2 ++ consumedIds (history .empty events).1 ++
        removedIds (history .empty events).1 ++ lostIds (history .empty events).1) ∧
    ((pushedIds (history .empty events).1).Perm
      (queuedIds q (history .empty events).2 ++ consumedIds (history .empty events).1 ++
        removedIds (history .empty events).1) ↔ ¬ IsRefusedIn q .empty events) := by
  have hperm := pushedIds_perm hclients hpushes
  have hlost := lostIds_eq_nil_iff hclients hpushes
  exact ⟨nodup_pushedIds hclients hpushes, hperm, (perm_without_lost_iff hperm).trans hlost⟩

/-- A client that keeps records for longer than the store can. -/
def patientClient : RedisQueue :=
  ⟨{ RedisConfig.default with resultTtl := .ofSecs 9223372036854776 }⟩

/-- `patientClient` pushes a task and cancels it. -/
def pushThenCancel : List Event :=
  [.call patientClient (.push ⟨"echo", .null, none⟩ 0), .call patientClient (.cancel "1" .epoch)]

/-- `patientClient` is the only one that acts in `pushThenCancel`. -/
theorem keyPrefix_of_mem_pushThenCancel : ∀ e ∈ pushThenCancel, ∀ client, e.client? = some client →
    client.config.keyPrefix = patientClient.config.keyPrefix := by
  intro e he client hclient
  rcases List.mem_cons.1 he with rfl | he
  · cases hclient
    rfl
  · cases List.mem_singleton.1 he
    cases hclient
    rfl

/-- In `pushThenCancel` there is room for the push, and the three groups do not account for its
id. -/
theorem accounted_iff_pushThenCancel :
    (∀ e ∈ pushThenCancel, ∀ client, e.client? = some client →
      client.config.keyPrefix = patientClient.config.keyPrefix) ∧
    totalPushes pushThenCancel < 2 ^ 53 ∧
    ((pushedIds (history .empty pushThenCancel).1).Perm
      (queuedIds patientClient (history .empty pushThenCancel).2 ++
        consumedIds (history .empty pushThenCancel).1 ++
        removedIds (history .empty pushThenCancel).1) ↔
      ¬ IsRefusedIn patientClient .empty pushThenCancel) :=
  ⟨keyPrefix_of_mem_pushThenCancel, by decide,
    (accounted_iff keyPrefix_of_mem_pushThenCancel (by decide)).2.2⟩

/-- The settings of `patientClient` are valid, and yet its cancelation takes a queued task off the
queue and answers an error. -/
theorem exists_not_accounted : ∃ (q : RedisQueue) (events : List Event),
    (∀ e ∈ events, ∀ client, e.client? = some client →
      client.config.validate = .ok () ∧ client.config.keyPrefix = q.config.keyPrefix) ∧
    totalPushes events < 2 ^ 53 ∧
    ¬ (pushedIds (history .empty events).1).Perm
      (queuedIds q (history .empty events).2 ++ consumedIds (history .empty events).1 ++
        removedIds (history .empty events).1) := by
  refine ⟨patientClient, pushThenCancel, ?_, by decide, ?_⟩
  · intro e he client hclient
    refine ⟨?_, keyPrefix_of_mem_pushThenCancel e he client hclient⟩
    rcases List.mem_cons.1 he with rfl | he
    · cases hclient
      rfl
    · cases List.mem_singleton.1 he
      cases hclient
      rfl
  · have hqueued : "1" ∈ queuedIds patientClient (history .empty (pushThenCancel.take 1)).2 := by
      obtain ⟨⟨members, hlayout, hperm⟩, hpushed, -⟩ :=
        (Layout.empty patientClient).balanced_history (pushThenCancel.take 1)
          (fun e he => keyPrefix_of_mem_pushThenCancel e (List.mem_of_mem_take he)) (by decide)
      have hids : idsOf [] = [] := rfl
      have hgone : goneIds (history .empty (pushThenCancel.take 1)).1 = [] := rfl
      rw [hpushed, hids, hgone, List.append_nil, List.append_nil] at hperm
      rw [hlayout.queuedIds_eq]
      exact hperm.mem_iff.1 (by decide)
    have hrefused : IsRefusedIn patientClient .empty pushThenCancel :=
      ⟨pushThenCancel.take 1, _, [], rfl, patientClient, "1", .epoch, "1", rfl, by decide, hqueued,
        by decide⟩
    rw [perm_without_lost_iff (pushedIds_perm keyPrefix_of_mem_pushThenCancel (by decide)),
      lostIds_eq_nil_iff keyPrefix_of_mem_pushThenCancel (by decide)]
    exact not_not_intro hrefused

end TaskScheduler.RedisQueue
