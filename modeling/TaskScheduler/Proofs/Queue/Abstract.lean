import Mathlib.Data.Multiset.Filter
import Mathlib.Data.Multiset.MapFold
import TaskScheduler.Proofs.Queue.Calls
import TaskScheduler.Proofs.Queue.Memory
import TaskScheduler.Proofs.Task.Account

/-!
# The queue in memory is a priority queue with a result log

An `AbstractQueue` is a collection of tickets in no order at all, the log of the records, and the
reports.  What it answers is said without an algorithm: a pop hands out some ticket that precedes
all others, a cancelation takes out the ticket of its id.  The task that is handed out and the
records are described field by field (`Envelope.IsHandedOutAs`, `Envelope.IsCanceledAs`,
`TaskReport.IsKeptAs`).  Every run of `MemoryQueue.serve` is a run of the abstract queue.
-/

namespace TaskScheduler

open MemoryQueue (idOf insertOrdered canceledRecord)

/-- The reports that calls bring. -/
def QueueCall.reports (calls : List QueueCall) : List TaskReport :=
  calls.filterMap fun
    | report r _ => some r
    | _ => none

/-! ### The abstract queue -/

/-- A task that waits to be handed out. -/
structure Ticket where
  /-- The number of its push. -/
  number : Nat
  /-- The priority that it was pushed with. -/
  priority : Int64
  /-- The task. -/
  envelope : Envelope

namespace Ticket

/-- The id under which a task was pushed: the lower-case hexadecimal digits of its number. -/
def id (t : Ticket) : String := String.ofList (Nat.toDigits 16 t.number)

/-- A ticket of lower priority number goes first, and of two equal ones the older. -/
def Precedes (t u : Ticket) : Prop :=
  t.priority < u.priority ∨ t.priority = u.priority ∧ t.number < u.number

/-- Where a `Ticket` stands in the order of the queue in memory. -/
def place (t : Ticket) : QueueKey × String := (⟨t.priority, t.number⟩, t.id)

end Ticket

/-- A priority queue with a result log. -/
structure AbstractQueue where
  /-- The number of pushes so far. -/
  pushes : Nat := 0
  /-- The tasks that were pushed and neither handed out nor canceled. -/
  waiting : Multiset Ticket := 0
  /-- The results of cancelations and reports, latest first. -/
  log : List ResultRecord := []
  /-- The reports, oldest first. -/
  reports : List TaskReport := []

namespace AbstractQueue

/-- What a call may be answered by the queue `a`, and the queue afterwards. -/
inductive Step (a : AbstractQueue) : QueueCall → QueueAnswer → AbstractQueue → Prop
  /-- A pushed task waits with its envelope and its priority under the number of its push, and its
  id is the answer. -/
  | push {t : Ticket} (e : Envelope) (priority : Int64)
      (hticket : t = ⟨a.pushes + 1, priority, e⟩) :
    Step a (.push e priority) (.pushed (.ok t.id))
      { a with pushes := a.pushes + 1, waiting := t ::ₘ a.waiting }
  /-- The ticket that precedes all others is handed out with the envelope that it was pushed
  with. -/
  | pop {t : Ticket} {rest : Multiset Ticket} {task : PoppedTask} (now : Timestamp)
      (hwaiting : a.waiting = t ::ₘ rest) (hfirst : ∀ u ∈ rest, t.Precedes u)
      (htask : t.envelope.IsHandedOutAs t.id task) :
    Step a (.pop now) (.popped (.ok task)) { a with waiting := rest }
  /-- Nothing is handed out when no task waits. -/
  | popEmpty (now : Timestamp) (hwaiting : a.waiting = 0) :
    Step a (.pop now) (.popped (.error .empty)) a
  /-- The waiting task of the id is taken out and recorded as canceled. -/
  | cancel {t : Ticket} {rest : Multiset Ticket} {record : ResultRecord} (now : Timestamp)
      (hwaiting : a.waiting = t ::ₘ rest) (hrecord : t.envelope.IsCanceledAs t.id now record) :
    Step a (.cancel t.id now) (.done (.ok ())) { a with waiting := rest, log := record :: a.log }
  /-- An id under which no task waits is not found. -/
  | cancelNotFound (id : String) (now : Timestamp) (hwaiting : ∀ t ∈ a.waiting, t.id ≠ id) :
    Step a (.cancel id now) (.done (.error (.notFound id))) a
  /-- A report is recorded, and kept itself. -/
  | report {record : ResultRecord} (r : TaskReport) (now : Timestamp)
      (hrecord : r.IsKeptAs now record) :
    Step a (.report r now) (.done (.ok ()))
      { a with log := record :: a.log, reports := a.reports ++ [r] }
  /-- What is known of an id is its latest record. -/
  | get (id : String) (now : Timestamp) :
    Step a (.get id now) (.record (.ok (a.log.find? fun r => r.id = id))) a
  /-- The length is the number of waiting tasks. -/
  | len : Step a .len (.length (.ok a.waiting.card)) a
  /-- The queue is empty when no task waits. -/
  | isEmpty : Step a .isEmpty (.emptiness (.ok (a.waiting.card == 0))) a

/-- What calls may be answered, one after another, and the queue afterwards. -/
inductive Run : AbstractQueue → List QueueCall → List QueueAnswer → AbstractQueue → Prop
  /-- No call, no answer. -/
  | nil (a : AbstractQueue) : Run a [] [] a
  /-- The first call is answered, and the rest by the queue that it leaves. -/
  | cons {a b d : AbstractQueue} {c : QueueCall} {answer : QueueAnswer} {calls : List QueueCall}
      {answers : List QueueAnswer} (hstep : Step a c answer b) (hrun : Run b calls answers d) :
    Run a (c :: calls) (answer :: answers) d

/-- In a `Run` of an `AbstractQueue` no pop ever finds a task without its body. -/
theorem Run.ne_corrupt {a b : AbstractQueue} {calls : List QueueCall} {answers : List QueueAnswer}
    (h : Run a calls answers b) (id reason : String) :
    .popped (.error (.corrupt id reason)) ∉ answers := by
  induction h with
  | nil => exact List.not_mem_nil
  | cons hstep _ ih =>
    rw [List.mem_cons, not_or]
    refine ⟨?_, ih⟩
    intro hanswer
    subst hanswer
    cases hstep

/-- The reports after a `Run` are those that its calls bring, in their order, after the earlier
ones. -/
theorem Run.reports_eq {a b : AbstractQueue} {calls : List QueueCall} {answers : List QueueAnswer}
    (h : Run a calls answers b) : b.reports = a.reports ++ QueueCall.reports calls := by
  induction h with
  | nil => exact (List.append_nil _).symm
  | cons hstep _ ih =>
    rw [ih]
    cases hstep with
    | report r now _ => exact List.append_assoc _ _ _
    | _ => rfl

end AbstractQueue

/-! ### The order in memory -/

namespace MemoryQueue

/-- `QueueKey.before` is transitive: what stands before a place stands before the places after
it. -/
theorem before_trans {a b c : QueueKey} (hab : a.before b = true) (hbc : b.before c = true) :
    a.before c = true := by
  simp only [QueueKey.before, Bool.or_eq_true, Bool.and_eq_true, decide_eq_true_eq,
    beq_iff_eq, ← Int64.toInt_inj] at hab hbc ⊢
  omega

/-- Of the places of two different pushes one stands before the other. -/
theorem before_of_not_before {a b : QueueKey} (hab : ¬ a.before b = true) (hne : a.seq ≠ b.seq) :
    b.before a = true := by
  simp only [QueueKey.before, Bool.or_eq_true, Bool.and_eq_true, decide_eq_true_eq,
    beq_iff_eq, ← Int64.toInt_inj] at hab ⊢
  omega

/-- The order lists the places from the first to the last. -/
def IsSorted (order : List (QueueKey × String)) : Prop :=
  order.Pairwise fun o o' => o.1.before o'.1 = true

/-- `insertOrdered` puts a new place where it belongs, so that the order stays sorted. -/
theorem IsSorted.insertOrdered {order : List (QueueKey × String)} (h : IsSorted order)
    {key : QueueKey} (hnew : ∀ o ∈ order, key.seq ≠ o.1.seq) (id : String) :
    IsSorted (insertOrdered key id order) := by
  induction order with
  | nil => exact List.pairwise_singleton _ _
  | cons o rest ih =>
    obtain ⟨hfirst, hrest⟩ := List.pairwise_cons.1 h
    obtain ⟨hne, hnew⟩ := List.forall_mem_cons.1 hnew
    unfold MemoryQueue.insertOrdered
    split
    next hbefore =>
      refine List.pairwise_cons.2 ⟨?_, h⟩
      intro x hx
      rcases List.mem_cons.1 hx with rfl | hx
      · exact hbefore
      · exact before_trans hbefore (hfirst x hx)
    next hbefore =>
      refine List.pairwise_cons.2 ⟨?_, ih hrest hnew⟩
      intro x hx
      rcases List.mem_cons.1 ((insertOrdered_perm key id rest).mem_iff.1 hx) with rfl | hx
      · exact before_of_not_before hbefore hne
      · exact hfirst x hx

end MemoryQueue

/-- A ticket `Precedes` another exactly when its place stands before the other's. -/
theorem Ticket.precedes_iff (t u : Ticket) :
    t.Precedes u ↔ t.place.1.before u.place.1 = true := by
  unfold Ticket.Precedes QueueKey.before
  rw [Bool.or_eq_true, Bool.and_eq_true, decide_eq_true_iff, decide_eq_true_iff, beq_iff_eq,
    Int64.lt_iff_toInt_lt]
  rfl

/-! ### The abstract queue that a queue in memory stands for -/

/-- The queue in memory stands for an abstract queue. -/
structure MemoryQueue.Represents (m : MemoryQueue) (a : AbstractQueue) : Prop where
  /-- The order and the bodies belong to the same tasks. -/
  wellFormed : m.WellFormed
  /-- The order is sorted. -/
  sorted : IsSorted m.order
  /-- The pushes are counted. -/
  pushes : m.seq = a.pushes
  /-- The places are those of the waiting tickets. -/
  places : (m.order : Multiset (QueueKey × String)) = a.waiting.map Ticket.place
  /-- A waiting ticket has its task as its body. -/
  bodies : ∀ t ∈ a.waiting, m.queued.get? t.id = some (t.place.1, t.envelope)
  /-- The record of an id is its latest result. -/
  results : ∀ id, m.results.get? id = a.log.find? fun r => r.id = id
  /-- The reports are kept. -/
  reports : m.reports = a.reports

namespace MemoryQueue.Represents

variable {m : MemoryQueue} {a : AbstractQueue}

/-- An empty queue in memory `Represents` an empty abstract queue. -/
theorem empty : Represents {} {} where
  wellFormed := .empty
  sorted := List.Pairwise.nil
  pushes := rfl
  places := rfl
  bodies t ht := absurd ht (Multiset.notMem_zero t)
  results id := FiniteMap.get?_empty id
  reports := rfl

/-- The place of a waiting ticket is in the order of a queue that `Represents` it. -/
theorem mem_order (h : Represents m a) {t : Ticket} (ht : t ∈ a.waiting) : t.place ∈ m.order := by
  rw [← Multiset.mem_coe, h.places]
  exact Multiset.mem_map_of_mem _ ht

/-- Every place in the order is that of a waiting ticket. -/
theorem exists_ticket (h : Represents m a) {o : QueueKey × String} (ho : o ∈ m.order) :
    ∃ t rest, a.waiting = t ::ₘ rest ∧ t.place = o := by
  rw [← Multiset.mem_coe, h.places] at ho
  obtain ⟨t, ht, hplace⟩ := Multiset.mem_map.1 ho
  obtain ⟨rest, hrest⟩ := Multiset.exists_cons_of_mem ht
  exact ⟨t, rest, hrest, hplace⟩

/-- If an id has a body, both are those of a waiting ticket. -/
theorem exists_ticket_of_get? (h : Represents m a) {id : String} {b : QueueKey × Envelope}
    (hget : m.queued.get? id = some b) :
    ∃ t rest, a.waiting = t ::ₘ rest ∧ t.id = id ∧ b = (t.place.1, t.envelope) := by
  obtain ⟨t, rest, hwaiting, hplace⟩ := h.exists_ticket (h.wellFormed.placed hget)
  have hid : t.id = id := congrArg Prod.snd hplace
  have hbody := h.bodies t (hwaiting ▸ Multiset.mem_cons_self t rest)
  rw [hid, hget] at hbody
  exact ⟨t, rest, hwaiting, hid, Option.some.inj hbody⟩

/-- The waiting tickets have different numbers, as the pushes that they stand for are different. -/
theorem nodup_numbers (h : Represents m a) : (a.waiting.map Ticket.number).Nodup := by
  have hmap : a.waiting.map Ticket.number = ↑(m.order.map fun o => o.1.seq) := by
    rw [← Multiset.map_coe, h.places, Multiset.map_map]
    rfl
  rw [hmap, Multiset.coe_nodup]
  exact h.wellFormed.distinct

/-- The other tickets have other numbers. -/
theorem number_ne (h : Represents m a) {t u : Ticket} {rest : Multiset Ticket}
    (hwaiting : a.waiting = t ::ₘ rest) (hu : u ∈ rest) : u.number ≠ t.number := by
  have hnodup := h.nodup_numbers
  rw [hwaiting, Multiset.map_cons, Multiset.nodup_cons] at hnodup
  intro hnumber
  exact hnodup.1 (hnumber ▸ Multiset.mem_map_of_mem _ hu)

/-- If a ticket is taken out of both queues, the one still `Represents` the other. -/
theorem erase (h : Represents m a) {t : Ticket} {rest : Multiset Ticket}
    (hwaiting : a.waiting = t ::ₘ rest) {m' : MemoryQueue} {a' : AbstractQueue}
    (hseq : m'.seq = m.seq) (horder : m'.order = m.order.filter fun o => o.1 ≠ t.place.1)
    (hqueued : m'.queued = m.queued.erase t.id) (hpushes : a'.pushes = a.pushes)
    (hrest : a'.waiting = rest)
    (hresults : ∀ id, m'.results.get? id = a'.log.find? fun r => r.id = id)
    (hreports : m'.reports = a'.reports) : Represents m' a' where
  wellFormed := h.wellFormed.erase (h.mem_order (hwaiting ▸ Multiset.mem_cons_self t rest)) hseq
    horder hqueued
  sorted := by
    rw [horder]
    exact List.Pairwise.filter _ h.sorted
  pushes := by rw [hseq, h.pushes, hpushes]
  places := by
    rw [horder, ← Multiset.filter_coe, h.places, hrest, hwaiting, Multiset.map_cons,
      Multiset.filter_cons_of_neg _ (by simp), Multiset.filter_eq_self]
    intro o ho
    obtain ⟨u, hu, rfl⟩ := Multiset.mem_map.1 ho
    intro hkey
    exact h.number_ne hwaiting hu (congrArg QueueKey.seq hkey)
  bodies u hu := by
    rw [hrest] at hu
    rw [hqueued, FiniteMap.get?_erase_of_ne]
    · exact h.bodies u (hwaiting ▸ Multiset.mem_cons_of_mem hu)
    · exact fun hid => h.number_ne hwaiting hu (idOf_injective hid)
  results := hresults
  reports := hreports

/-- The record that is stored last under an id is the first one in the log that has this id. -/
theorem results_insert (h : Represents m a) (r : ResultRecord) (id : String) :
    (m.results.insert r.id r).get? id = (r :: a.log).find? fun r => r.id = id := by
  rw [FiniteMap.get?_insert, List.find?_cons, h.results id]
  by_cases hid : id = r.id
  · simp [hid]
  · simp [hid, Ne.symm hid]

/-! ### One call -/

/-- A push into both queues keeps `Represents`: the new ticket has the next number. -/
theorem push (h : Represents m a) (e : Envelope) (priority : Int64) :
    Represents (m.push e priority).2
      { a with pushes := a.pushes + 1, waiting := ⟨a.pushes + 1, priority, e⟩ ::ₘ a.waiting } where
  wellFormed := h.wellFormed.push e priority
  sorted := by
    refine h.sorted.insertOrdered (fun o ho => ?_) _
    have hle := (h.wellFormed.ids o ho).2.2
    dsimp only
    omega
  pushes := congrArg (· + 1) h.pushes
  places := by
    rw [Multiset.map_cons, ← h.places, ← h.pushes, Multiset.cons_coe, Multiset.coe_eq_coe]
    exact insertOrdered_perm _ _ _
  bodies t ht := by
    rw [get?_push]
    rcases Multiset.mem_cons.1 ht with rfl | ht
    · rw [h.pushes]
      exact if_pos rfl
    · have hold := h.bodies t ht
      rw [if_neg, hold]
      intro hid
      rw [hid, h.wellFormed.get?_fresh (Nat.lt_succ_self _)] at hold
      exact absurd hold (by simp)
  results := h.results
  reports := h.reports

/-- A pop is answered as `AbstractQueue.Step` allows: the first task of the order has the ticket
that precedes all others. -/
theorem pop (h : Represents m a) (now : Timestamp) :
    ∃ a', a.Step (.pop now) (.popped m.pop.1) a' ∧ Represents m.pop.2 a' := by
  cases horder : m.order with
  | nil =>
    have hwaiting : a.waiting = 0 := by
      have hplaces := h.places
      rw [horder] at hplaces
      exact Multiset.map_eq_zero.1 hplaces.symm
    rw [pop_nil horder]
    exact ⟨a, .popEmpty now hwaiting, h⟩
  | cons o rest =>
    obtain ⟨t, others, hwaiting, rfl⟩ := h.exists_ticket (horder ▸ List.mem_cons_self)
    have hsorted := h.sorted
    rw [horder] at hsorted
    have hothers : (rest : Multiset (QueueKey × String)) = others.map Ticket.place := by
      have hplaces := h.places
      rw [horder, hwaiting, Multiset.map_cons, ← Multiset.cons_coe] at hplaces
      exact (Multiset.cons_inj_right _).1 hplaces
    have hfirst : ∀ u ∈ others, t.Precedes u := by
      intro u hu
      have hmem : u.place ∈ rest := by
        rw [← Multiset.mem_coe, hothers]
        exact Multiset.mem_map_of_mem _ hu
      exact (t.precedes_iff u).2 ((List.pairwise_cons.1 hsorted).1 _ hmem)
    rw [pop_cons horder (h.bodies t (hwaiting ▸ Multiset.mem_cons_self t others))]
    exact ⟨_, .pop now hwaiting hfirst (Envelope.isHandedOutAs_popped _ _),
      h.erase hwaiting rfl (h.wellFormed.rest_eq horder) rfl rfl rfl h.results h.reports⟩

/-- A cancelation is answered as `AbstractQueue.Step` allows: the task of a waiting ticket is
canceled, and no other id is found. -/
theorem cancel (h : Represents m a) (id : String) (now : Timestamp) :
    ∃ a', a.Step (.cancel id now) (.done (m.cancel id now).1) a' ∧
      Represents (m.cancel id now).2 a' := by
  cases hget : m.queued.get? id with
  | none =>
    have hwaiting : ∀ t ∈ a.waiting, t.id ≠ id := by
      rintro t ht rfl
      rw [h.bodies t ht] at hget
      cases hget
    rw [cancel_none hget]
    exact ⟨a, .cancelNotFound id now hwaiting, h⟩
  | some b =>
    obtain ⟨t, rest, hwaiting, rfl, rfl⟩ := h.exists_ticket_of_get? hget
    rw [cancel_some hget]
    exact ⟨_, .cancel now hwaiting (Envelope.isCanceledAs_canceledRecord _ _ _),
      h.erase hwaiting rfl rfl rfl rfl rfl
        (h.results_insert (canceledRecord t.id t.envelope now)) h.reports⟩

/-- A report puts its record into both queues and keeps `Represents`. -/
theorem report (h : Represents m a) (r : TaskReport) (now : Timestamp) :
    Represents (m.report r now)
      { a with log := r.toRecord now :: a.log, reports := a.reports ++ [r] } where
  wellFormed := h.wellFormed.report r now
  sorted := h.sorted
  pushes := h.pushes
  places := h.places
  bodies := h.bodies
  results := h.results_insert (r.toRecord now)
  reports := congrArg (· ++ [r]) h.reports

/-- A queue that `Represents` another has as many places as tickets wait. -/
theorem len_eq (h : Represents m a) : m.len = a.waiting.card := by
  have hcard := congrArg Multiset.card h.places
  rw [Multiset.card_map, Multiset.coe_card] at hcard
  exact hcard

/-- Every call is answered as `AbstractQueue.Step` allows, and keeps `Represents`. -/
theorem serve (h : Represents m a) (c : QueueCall) :
    ∃ a', a.Step c (m.serve c).1 a' ∧ Represents (m.serve c).2 a' := by
  cases c with
  | push e priority =>
    refine ⟨_, ?_, h.push e priority⟩
    have hid : (m.push e priority).1 = Ticket.id ⟨a.pushes + 1, priority, e⟩ := by
      rw [← h.pushes]
      rfl
    change a.Step _ (.pushed (.ok (m.push e priority).1)) _
    rw [hid]
    exact .push e priority rfl
  | pop now => exact h.pop now
  | cancel id now => exact h.cancel id now
  | report r now => exact ⟨_, .report r now (r.isKeptAs_toRecord now), h.report r now⟩
  | get id now =>
    refine ⟨a, ?_, h⟩
    change a.Step _ (.record (.ok (m.results.get? id))) a
    rw [h.results]
    exact .get id now
  | len =>
    refine ⟨a, ?_, h⟩
    change a.Step _ (.length (.ok m.len)) a
    rw [h.len_eq]
    exact .len
  | isEmpty =>
    refine ⟨a, ?_, h⟩
    change a.Step _ (.emptiness (.ok (m.len == 0))) a
    rw [h.len_eq]
    exact .isEmpty

/-! ### Runs -/

/-- Every list of calls is answered as `AbstractQueue.Run` allows, and keeps `Represents`. -/
theorem run (h : Represents m a) (calls : List QueueCall) :
    ∃ a', a.Run calls (QueueCall.run MemoryQueue.serve m calls).1 a' ∧
      Represents (QueueCall.run MemoryQueue.serve m calls).2 a' := by
  induction calls generalizing m a with
  | nil => exact ⟨a, .nil a, h⟩
  | cons c calls ih =>
    obtain ⟨b, hstep, hb⟩ := h.serve c
    obtain ⟨d, hrun, hd⟩ := ih hb
    exact ⟨d, .cons hstep hrun, hd⟩

end MemoryQueue.Represents

/-- `MemoryQueue` answers any calls as an `AbstractQueue` does: its order and its bodies are those
of the waiting tickets, no answer finds a task without its body, the reports are those of the calls
in their order, and a cancelation that fails leaves the queue as it was. -/
theorem MemoryQueue.refines_abstractQueue (calls : List QueueCall) :
    ∃ a, AbstractQueue.Run {} calls (QueueCall.run MemoryQueue.serve {} calls).1 a ∧
      (QueueCall.run MemoryQueue.serve {} calls).2.Represents a ∧
      (∀ id reason, .popped (.error (.corrupt id reason)) ∉
        (QueueCall.run MemoryQueue.serve {} calls).1) ∧
      (QueueCall.run MemoryQueue.serve {} calls).2.reports = QueueCall.reports calls ∧
      ∀ id now err, ((QueueCall.run MemoryQueue.serve {} calls).2.cancel id now).1 = .error err →
        ((QueueCall.run MemoryQueue.serve {} calls).2.cancel id now).2 =
          (QueueCall.run MemoryQueue.serve {} calls).2 := by
  obtain ⟨a, hrun, hrep⟩ := Represents.empty.run calls
  refine ⟨a, hrun, hrep, hrun.ne_corrupt, ?_, ?_⟩
  · rw [hrep.reports, hrun.reports_eq]
    rfl
  · intro id now err hfails
    unfold MemoryQueue.cancel at hfails ⊢
    split at hfails
    · rfl
    · cases hfails

/-- Three tasks are pushed, the two of the lower priority number last.  The first of these two is
popped and reported, the one that was pushed first of all is canceled, and the records of both are
asked for. -/
def threeTasks : List QueueCall :=
  [.push ⟨"mail", .str "hello", some 1500⟩ 5, .push ⟨"echo", .null, some 250⟩ 1,
    .push ⟨"echo", .bool true, none⟩ 1, .pop .epoch, .report ⟨"2", "echo", .zero, .ok .null⟩ .epoch,
    .cancel "1" .epoch, .get "1" .epoch, .get "2" .epoch, .len]

/-- The answers to `threeTasks` are answers of an `AbstractQueue`.  The popped task has the payload
and the timeout that were pushed with it, the canceled task has a record with the type that it was
pushed with, and the third task is the only one that still waits. -/
theorem MemoryQueue.refines_abstractQueue_threeTasks :
    (∃ a, AbstractQueue.Run {} threeTasks (QueueCall.run MemoryQueue.serve {} threeTasks).1 a ∧
      (QueueCall.run MemoryQueue.serve {} threeTasks).2.Represents a) ∧
    (QueueCall.run MemoryQueue.serve {} threeTasks).1 =
      [.pushed (.ok "1"), .pushed (.ok "2"), .pushed (.ok "3"),
        .popped (.ok ⟨"2", "echo", .null, some (.ofMillis 250)⟩), .done (.ok ()), .done (.ok ()),
        .record (.ok (some ⟨"1", "mail", .canceled, some "task canceled", none, 0, .epoch⟩)),
        .record (.ok (some ⟨"2", "echo", .completed, none, some .null, 0, .epoch⟩)),
        .length (.ok 1)] := by
  obtain ⟨a, hrun, hrep, -⟩ := MemoryQueue.refines_abstractQueue threeTasks
  exact ⟨⟨a, hrun, hrep⟩, rfl⟩

end TaskScheduler
