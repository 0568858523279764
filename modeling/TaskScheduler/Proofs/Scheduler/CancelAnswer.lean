import Mathlib.Data.List.Perm.Subperm
import TaskScheduler.Proofs.Queue.Calls
import TaskScheduler.Proofs.Queue.Contract
import TaskScheduler.Proofs.Scheduler.StageEntry
import TaskScheduler.Proofs.Scheduler.TaskLife
import TaskScheduler.Proofs.Task.Account

/-!
# What a cancelation by id answers

A cancelation by id looks for the task in the registry and then in the queue.  What it answers
depends on both, and the cases are disjoint only because of what holds in every state that can be
reached: the ids of the tasks and the queued ids are all different (`Apart`), the registry knows the
tasks in hand and no others, and a task in hand is not canceled unless somebody is in the middle of
canceling it.

The queue in memory may be in use by others, who push, pop, cancel and report as they like, so a
history consists of moves of the scheduler and of calls of others (`SharedMove`).

After a cancelation that succeeded the id is `Spent`: it is not queued, and its task, if there is
one, has been released.  Nothing makes a spent id anything else, and the cancelation of a spent id
fails; so no id is canceled twice.
-/

namespace TaskScheduler

/-! ### Ids in the queue -/

namespace MemoryQueue

/-- An id that was given by a push. -/
def Given (q : MemoryQueue) (id : String) : Prop := ∃ n ≤ q.seq, id = idOf n

/-- A call makes one queue of another and takes ids off: no id comes to be queued but that of a new
push. -/
structure Passes (q : MemoryQueue) (out : List String) (q' : MemoryQueue) : Prop where
  /-- The queue stays in order. -/
  wellFormed : q'.WellFormed
  /-- What is taken off was queued, and what is queued was so before or is new. -/
  ids : (out ++ q'.queuedIds).Subperm q.queuedIds ∧ q'.seq = q.seq ∨
    out = [] ∧ q'.queuedIds.Perm (idOf (q.seq + 1) :: q.queuedIds) ∧ q'.seq = q.seq + 1

variable {q q' : MemoryQueue} {out : List String} {id : String}

/-- In a well-formed queue every queued id is `Given`. -/
theorem WellFormed.given (h : q.WellFormed) (hid : id ∈ q.queuedIds) : q.Given id := by
  obtain ⟨o, ho, rfl⟩ := List.mem_map.1 hid
  obtain ⟨hname, -, hle⟩ := h.ids o ho
  exact ⟨_, hle, hname⟩

/-- In a well-formed queue no id is queued twice. -/
theorem WellFormed.nodup_queuedIds (h : q.WellFormed) : q.queuedIds.Nodup := by
  have hids : q.queuedIds = (q.order.map fun o => o.1.seq).map idOf := by
    rw [List.map_map]
    exact List.map_congr_left fun o ho => (h.ids o ho).1
  rw [hids]
  exact h.distinct.map idOf_injective

/-- The id of the next push is not `Given` before it. -/
theorem not_given_next (q : MemoryQueue) : ¬ q.Given (idOf (q.seq + 1)) := by
  rintro ⟨n, hle, hid⟩
  have := idOf_injective hid
  omega

namespace Passes

/-- A call that `Passes` ids on from the queue also does so if what it takes off is left out. -/
theorem forget (h : q.Passes out q') : q.Passes [] q' := by
  refine ⟨h.wellFormed, h.ids.imp (fun ⟨hsub, hseq⟩ => ⟨?_, hseq⟩) fun ⟨_, hnew⟩ => ⟨rfl, hnew⟩⟩
  exact (List.sublist_append_right _ _).subperm.trans hsub

/-- Every id that a call takes off was queued before it. -/
theorem mem_out (h : q.Passes out q') (hid : id ∈ out) : id ∈ q.queuedIds := by
  rcases h.ids with ⟨hsub, -⟩ | ⟨rfl, -⟩
  · exact hsub.subset (List.mem_append_left _ hid)
  · exact absurd hid List.not_mem_nil

/-- An id that is `Given` stays so under a call. -/
theorem given (h : q.Passes out q') (hid : q.Given id) : q'.Given id := by
  obtain ⟨n, hle, rfl⟩ := hid
  rcases h.ids with ⟨-, hseq⟩ | ⟨-, -, hseq⟩ <;> exact ⟨n, by omega, rfl⟩

/-- An id that is `Given` and is not queued stays off the queue under a call, and is not taken off
it. -/
theorem not_mem (h : q.Passes out q') (hid : q.Given id) (hoff : id ∉ q.queuedIds) :
    id ∉ out ++ q'.queuedIds := by
  rcases h.ids with ⟨hsub, -⟩ | ⟨rfl, hperm, -⟩
  · exact fun hmem => hoff (hsub.subset hmem)
  · intro hmem
    rcases List.mem_cons.1 (hperm.mem_iff.1 hmem) with rfl | hmem
    · exact q.not_given_next hid
    · exact hoff hmem

/-- Ids that are all different and `Given` stay different from the queued ones when those that a
call takes off are added. -/
theorem nodup_append (h : q.Passes out q') {ids : List String} (hids : ∀ i ∈ ids, q.Given i)
    (hq : q.WellFormed) (hnodup : (ids ++ q.queuedIds).Nodup) :
    (ids ++ (out ++ q'.queuedIds)).Nodup := by
  rcases h.ids with ⟨⟨l, hperm, hsub⟩, -⟩ | ⟨rfl, hperm, -⟩
  · rw [← (hperm.append_left ids).nodup_iff]
    exact hnodup.sublist (hsub.append_left ids)
  · have hnew : idOf (q.seq + 1) ∉ ids ++ q.queuedIds := by
      intro hmem
      rcases List.mem_append.1 hmem with hmem | hmem
      · exact q.not_given_next (hids _ hmem)
      · exact q.not_given_next (hq.given hmem)
    rw [List.nil_append, (hperm.append_left ids).nodup_iff, List.perm_middle.nodup_iff]
    exact List.nodup_cons.2 ⟨hnew, hnodup⟩

end Passes

/-- A well-formed queue that is left alone `Passes` its ids on to itself. -/
theorem WellFormed.passes_self (h : q.WellFormed) : q.Passes [] q :=
  ⟨h, .inl ⟨.refl _, rfl⟩⟩

/-- A push takes no id off, and queues none but the new one. -/
theorem WellFormed.passes_push (h : q.WellFormed) (e : Envelope) (priority : Int64) :
    q.Passes [] (q.push e priority).2 :=
  ⟨h.push e priority, .inr ⟨rfl, (insertOrdered_perm _ _ _).map Prod.snd, rfl⟩⟩

/-- A pop takes the ids of `takenIds` off, and queues none. -/
theorem WellFormed.passes_pop (h : q.WellFormed) : q.Passes (takenIds q.pop.1) q.pop.2 := by
  have hholds : contract.Holds q q.seq q.queuedIds := ⟨h, rfl, rfl⟩
  obtain ⟨ids, ⟨hwell, hseq, rfl⟩, hperm⟩ := contract.pop hholds .epoch
  exact ⟨hwell, .inl ⟨hperm.symm.subperm, hseq⟩⟩

/-- In a well-formed queue the `cancel` of an id that is not queued answers that the id is not
found, and changes nothing. -/
theorem WellFormed.cancel_unqueued (h : q.WellFormed) (hid : id ∉ q.queuedIds) {now : Timestamp} :
    q.cancel id now = (.error (.notFound id), q) := by
  refine cancel_none ?_ now
  rw [← Option.not_isSome_iff_eq_none, ← h.mem_queuedIds_iff]
  exact hid

/-- In a well-formed queue an id is not queued after its `cancel`. -/
theorem WellFormed.unqueued_cancel (h : q.WellFormed) (id : String) (now : Timestamp) :
    id ∉ (q.cancel id now).2.queuedIds := by
  by_cases hid : id ∈ q.queuedIds
  · obtain ⟨⟨key, e⟩, hget⟩ := Option.isSome_iff_exists.1 ((h.mem_queuedIds_iff id).1 hid)
    rw [(h.cancel id now).mem_queuedIds_iff, cancel_some hget]
    simp
  · rw [h.cancel_unqueued hid]
    exact hid

/-- A cancelation queues no id. -/
theorem WellFormed.passes_cancel (h : q.WellFormed) (id : String) (now : Timestamp) :
    q.Passes [] (q.cancel id now).2 := by
  by_cases hid : id ∈ q.queuedIds
  · have hholds : contract.Holds q q.seq q.queuedIds := ⟨h, rfl, rfl⟩
    have hmeans : contract.means id = some id := rfl
    obtain ⟨ids, -, ⟨hwell, hseq, rfl⟩, hperm⟩ := contract.cancel_found hholds hmeans hid now
    exact ⟨hwell, .inl ⟨(List.sublist_cons_self _ _).subperm.trans hperm.symm.subperm, hseq⟩⟩
  · rw [h.cancel_unqueued hid]
    exact h.passes_self

/-- A call `serve`d to anybody queues no id but that of a new push. -/
theorem WellFormed.passes_serve (h : q.WellFormed) (c : QueueCall) :
    ∃ out, q.Passes out (q.serve c).2 := by
  cases c with
  | push e priority => exact ⟨_, h.passes_push e priority⟩
  | pop now => exact ⟨_, h.passes_pop⟩
  | cancel id now => exact ⟨_, h.passes_cancel id now⟩
  | report r now => exact ⟨[], h.report r now, .inl ⟨.refl _, rfl⟩⟩
  | get | len | isEmpty => exact ⟨_, h.passes_self⟩

end MemoryQueue

/-- A step of a scheduler, by its `QueueStep`, takes exactly the popped ids off a queue in
memory. -/
theorem QueueStep.passes {q q' : MemoryQueue} {popped : List PoppedTask}
    {reported : List TaskReport} (h : QueueStep q popped reported q') (hq : q.WellFormed) :
    q.Passes (popped.map PoppedTask.id) q' := by
  cases h with
  | same => exact hq.passes_self
  | push e priority => exact hq.passes_push e priority
  | @popped p wall ha =>
    have hpass := hq.passes_pop
    have hanswer : q.pop.1 = .ok p := ha
    rw [hanswer] at hpass
    exact hpass
  | unpopped ha => exact hq.passes_pop.forget
  | cancel id wall => exact hq.passes_cancel id wall
  | report r wall => exact ⟨hq.report r wall, .inl ⟨.refl _, rfl⟩⟩

variable {η : Type}

/-! ### Schedulers that share their queue -/

/-- What happens to a scheduler whose queue others use as well. -/
inductive SharedMove (η : Type) where
  /-- A move of the scheduler. -/
  | own (m : Move η)
  /-- Somebody else calls the queue. -/
  | other (c : QueueCall)

namespace Scheduler

/-- The scheduler after a move of its own or a call of others. -/
def moveShared (s : Scheduler MemoryQueue η) : SharedMove η → Scheduler MemoryQueue η
  | .own m => s.move m
  | .other c => { s with queue := (s.queue.serve c).2 }

/-- The scheduler after a list of moves and calls. -/
def afterShared (s : Scheduler MemoryQueue η) (moves : List (SharedMove η)) :
    Scheduler MemoryQueue η :=
  moves.foldl moveShared s

/-- Whether a move can happen; others may call the queue at any time. -/
def AllowsShared (s : Scheduler MemoryQueue η) : SharedMove η → Bool
  | .own m => s.Allows m
  | .other _ => true

/-- A history in which every cancelation in place is one of a task that has been registered. -/
def PossibleShared (s : Scheduler MemoryQueue η) : List (SharedMove η) → Bool
  | [] => true
  | m :: moves => s.AllowsShared m && (s.moveShared m).PossibleShared moves

/-- The ids of the tasks and the queued ids are all different, and all of them were given. -/
structure Apart (s : Scheduler MemoryQueue η) : Prop where
  /-- The queue is in order. -/
  wellFormed : s.queue.WellFormed
  /-- The ids of the tasks were given. -/
  given : ∀ id ∈ s.tasks.map Task.id, s.queue.Given id
  /-- No id occurs twice. -/
  nodup : (s.tasks.map Task.id ++ s.queue.queuedIds).Nodup

/-- A `SharedMove` of a well-formed queue takes ids off it, and the new tasks, if there are any,
have these ids. -/
theorem passes_moveShared {s : Scheduler MemoryQueue η} (hq : s.queue.WellFormed)
    (m : SharedMove η) : ∃ out, s.queue.Passes out (s.moveShared m).queue ∧
      ∃ new, (s.moveShared m).tasks.map Task.id = s.tasks.map Task.id ++ new ∧
        (new = out ∨ new = []) := by
  cases m with
  | own m =>
    obtain ⟨popped, reported, hqueue, htasks, -⟩ := (s.core_move m).queueStep
    refine ⟨_, hqueue.passes hq, popped.map PoppedTask.id, ?_, .inl rfl⟩
    have hids := congrArg (List.map PoppedTask.id) htasks
    rw [List.map_append, List.map_map, List.map_map] at hids
    exact hids
  | other c =>
    obtain ⟨out, hpass⟩ := hq.passes_serve c
    exact ⟨out, hpass, [], (List.append_nil _).symm, .inr rfl⟩

/-- A `SharedMove` keeps the ids of the tasks and the queued ids `Apart`. -/
theorem Apart.moveShared {s : Scheduler MemoryQueue η} (hs : s.Apart) (m : SharedMove η) :
    (s.moveShared m).Apart := by
  obtain ⟨out, hpass, new, hids, hnew⟩ := passes_moveShared hs.wellFormed m
  have hnodup : ((s.tasks.map Task.id ++ new) ++ (s.moveShared m).queue.queuedIds).Nodup := by
    have hall := hpass.nodup_append hs.given hs.wellFormed hs.nodup
    rw [List.append_assoc]
    rcases hnew with rfl | rfl
    · exact hall
    · exact hall.sublist ((List.sublist_append_right _ _).append_left _)
  refine ⟨hpass.wellFormed, fun id hid => ?_, hids ▸ hnodup⟩
  rw [hids] at hid
  refine hpass.given ((List.mem_append.1 hid).elim (hs.given id) fun hmem => ?_)
  rcases hnew with rfl | rfl
  · exact hs.wellFormed.given (hpass.mem_out hmem)
  · exact absurd hmem (List.not_mem_nil)

/-- What is known of a scheduler that shares its queue, in every state that it can reach. -/
structure Sharing (s : Scheduler MemoryQueue η) : Prop where
  /-- Ids are apart. -/
  apart : s.Apart
  /-- Registry and tasks go together. -/
  consistent : s.Consistent
  /-- The tokens of the tasks are there. -/
  armed : ∀ t ∈ s.tasks, ∀ k, t.token = some k → k < s.contexts.tree.size

/-- A new scheduler with a well-formed queue in memory is `Sharing` it. -/
theorem sharing_new (config : SchedulerConfig) {queue : MemoryQueue} (hq : queue.WellFormed)
    (metrics : Option Metrics) : (new config queue metrics : Scheduler MemoryQueue η).Sharing where
  apart := ⟨hq, by simp [new], by simpa [new] using hq.nodup_queuedIds⟩
  consistent := consistent_new config queue metrics
  armed := by simp [new]

/-- If every token of a task is in the tree of contexts, it is so after a move. -/
theorem armed_move {s : Scheduler MemoryQueue η} (htidy : s.core.Tidy)
    (harmed : ∀ t ∈ s.tasks, ∀ k, t.token = some k → k < s.contexts.tree.size) (m : Move η) :
    ∀ t ∈ (s.move m).tasks, ∀ k, t.token = some k → k < (s.move m).contexts.tree.size := by
  have hturns := turns_move htidy.tracked m
  refine hturns.forall_mem (fun p now k hk => absurd hk (by simp)) fun r t t' ht hturn k hk => ?_
  have hold : t.token = some k → k < (s.move m).contexts.tree.size := fun hk =>
    hturns.tree.lt_size (harmed t (List.mem_of_getElem? ht) k hk)
  cases hturn with
  | @arm hm hp c hc =>
    dsimp only at hk
    rcases Option.or_eq_some_iff.1 hk with hk | ⟨-, hk⟩
    · exact hold hk
    · obtain rfl : c.token = k := Option.some.inj hk
      obtain ⟨htoken, htree⟩ := s.contexts.tree_childOf baseToken t.popped.timeout
      have hgrows := grows_armed ht hp
      rw [← hm] at hgrows
      refine hgrows.lt_size ?_
      rw [← hc, htoken, htree]
      simp [TokenTree.size, TokenTree.addChild]
  | _ => exact hold hk

/-- Every `SharedMove` that is allowed keeps a scheduler `Sharing`. -/
theorem Sharing.moveShared {s : Scheduler MemoryQueue η} (hs : s.Sharing) {m : SharedMove η}
    (hm : s.AllowsShared m = true) : (s.moveShared m).Sharing := by
  refine ⟨hs.apart.moveShared m, ?_, ?_⟩
  · cases m with
    | own m => exact hs.consistent.move hm
    | other c =>
      have htidy := hs.consistent.tidy
      exact ⟨⟨htidy.ordered, htidy.tracked, htidy.reported, htidy.watched⟩, hs.consistent.enrolled,
        hs.consistent.listed, hs.consistent.lawful⟩
  · cases m with
    | own m => exact armed_move hs.consistent.tidy hs.armed m
    | other c => exact hs.armed

/-- A scheduler is `Sharing` its queue along every possible history. -/
theorem Sharing.afterShared {s : Scheduler MemoryQueue η} (hs : s.Sharing)
    {moves : List (SharedMove η)} (hmoves : s.PossibleShared moves = true) :
    (s.afterShared moves).Sharing := by
  induction moves generalizing s with
  | nil => exact hs
  | cons m moves ih =>
    obtain ⟨hm, hrest⟩ := Bool.and_eq_true_iff.1 hmoves
    exact ih (hs.moveShared hm) hrest

/-- A task is `Halved` after a `SharedMove` only if the move has marked it, or if it was so before
and the move does not drop it; the calls of others have no part in it. -/
theorem Sharing.halved_moveShared {s : Scheduler MemoryQueue η} (hs : s.Sharing)
    {m : SharedMove η} {r : TaskRef} (h : (s.moveShared m).Halved r) :
    m = .own (.markCanceled r) ∨ (s.Halved r ∧ m ≠ .own (.dropCanceled r)) := by
  cases m with
  | own m =>
    exact (hs.consistent.halved_move h).imp (congrArg _) (And.imp_right (mt SharedMove.own.inj))
  | other c => exact .inr ⟨h, by simp⟩

/-- Along a possible history a task in hand is canceled only between the halves of its cancelation,
also if others use the queue. -/
theorem Sharing.halved_afterShared {s : Scheduler MemoryQueue η} (hs : s.Sharing)
    {moves : List (SharedMove η)} (hmoves : s.PossibleShared moves = true) {r : TaskRef}
    (h : (s.afterShared moves).Halved r) :
    (s.Halved r ∧ .own (.dropCanceled r) ∉ moves) ∨
      ∃ before after, moves = before ++ .own (.markCanceled r) :: after ∧
        .own (.dropCanceled r) ∉ after := by
  induction moves generalizing s with
  | nil => exact .inl ⟨h, List.not_mem_nil⟩
  | cons m moves ih =>
    obtain ⟨hm, hrest⟩ := Bool.and_eq_true_iff.1 hmoves
    rcases ih (hs.moveShared hm) hrest h with ⟨hhalved, hleft⟩ | ⟨before, after, rfl, hleft⟩
    · rcases hs.halved_moveShared hhalved with rfl | ⟨hbefore, hne⟩
      · exact .inr ⟨[], moves, rfl, hleft⟩
      · exact .inl ⟨hbefore, by simp [Ne.symm hne, hleft]⟩
    · exact .inr ⟨m :: before, after, rfl, hleft⟩

/-! ### The three answers -/

/-- A task was canceled where it stood: it is canceled, it has left the registry, and its token, if
it has one, is canceled. -/
structure CanceledInPlace (s' : Scheduler MemoryQueue η) (r : TaskRef) (t : Task η) : Prop where
  /-- It is canceled. -/
  status : ∃ t', s'.task? r = some t' ∧ t'.status = .canceled
  /-- It has left the registry. -/
  registry : s'.registry.get? t.id = none
  /-- Its token is canceled. -/
  token : ∀ k, t.token = some k → s'.contexts.isCanceled k = true

variable {s : Scheduler MemoryQueue η} {id : String} {r : TaskRef} {t : Task η} {wall : Timestamp}

/-- The cancelation of a registered task that has not come to its end succeeds, and the task is
`CanceledInPlace`. -/
theorem Sharing.cancel_going (hs : s.Sharing) (hget : s.registry.get? t.id = some r)
    (hhand : s.InHand r t) (hgoing : t.status.isTerminal = false) :
    (s.cancel t.id wall).1 = .ok () ∧ CanceledInPlace (s.cancel t.id wall).2 r t := by
  obtain ⟨ht, hregistered, hreleased⟩ := hhand
  have heffect := taskEffect_cancelTask ht
  rw [TaskStatus.after_cancel, hgoing, hreleased] at heffect
  have hcancel : s.cancel t.id wall = (.ok (), s.cancelTask r) := by
    unfold cancel
    rw [hget]
    dsimp only
    rw [heffect.task]
    simp
  rw [hcancel]
  refine ⟨rfl, ⟨_, heffect.task, rfl⟩, ?_, fun k hk => ?_⟩
  · rw [heffect.registry, hreleased, hregistered]
    exact FiniteMap.get?_erase_self _ _
  · have hlt := hs.armed t (List.mem_of_getElem? ht) k hk
    rw [heffect.contexts]
    simp only [Task.canceledToken?, hreleased, hk]
    exact s.contexts.tree.isCanceled_cancel_self hlt

/-- The cancelation of a registered task whose status is final leaves it alone: it answers that the
task is done, or succeeds if the task is canceled already. -/
theorem cancel_final (hget : s.registry.get? id = some r) (ht : s.task? r = some t)
    (hfinal : t.status.isTerminal = true) :
    s.cancel id wall =
      (if t.status = .done then .error (.taskFinished id) else .ok (), s) := by
  have hsame : s.cancelTask r = s := by
    unfold cancelTask
    rw [ht]
    exact if_pos hfinal
  unfold cancel
  rw [hget]
  dsimp only
  rw [hsame, ht]
  by_cases hdone : t.status = .done <;> simp [hdone]

/-- The cancelation of an id that is not registered is that of the queue. -/
theorem cancel_unregistered (hnone : s.registry.get? id = none) :
    s.cancel id wall = (((s.queue.cancel id wall).1).mapError .backend,
      { s with queue := (s.queue.cancel id wall).2 }) := by
  unfold cancel
  rw [hnone]
  rfl

/-- From `s` to `s'` the queued task of the id was taken off the queue and recorded as canceled.
Nothing else is different: not the bodies and records of other ids, and nothing outside the
queue. -/
structure TakenOff (s s' : Scheduler MemoryQueue η) (id : String) (wall : Timestamp) : Prop where
  /-- It is not queued. -/
  unqueued : id ∉ s'.queue.queuedIds
  /-- Its record has the type of the envelope that was queued, and says that it was canceled. -/
  record : ∃ key e record, s.queue.queued.get? id = some (key, e) ∧
    s'.queue.get id = some record ∧ e.IsCanceledAs id wall record
  /-- What is queued and what is recorded under another id is as before. -/
  rest : ∀ id', id' ≠ id →
    s'.queue.queued.get? id' = s.queue.queued.get? id' ∧ s'.queue.get id' = s.queue.get id'
  /-- The scheduler has not changed but for the queue. -/
  others : s' = { s with queue := s'.queue }

/-- The cancelation of a queued id succeeds, and its task is `TakenOff` the queue. -/
theorem Sharing.cancel_queued (hs : s.Sharing) (hnone : s.registry.get? id = none)
    (hqueued : id ∈ s.queue.queuedIds) (wall : Timestamp) :
    (s.cancel id wall).1 = .ok () ∧ TakenOff s (s.cancel id wall).2 id wall := by
  have hwell := hs.apart.wellFormed
  obtain ⟨⟨key, e⟩, hget⟩ := Option.isSome_iff_exists.1 ((hwell.mem_queuedIds_iff id).1 hqueued)
  rw [cancel_unregistered hnone]
  refine ⟨?_, hwell.unqueued_cancel id wall,
    ⟨key, e, _, hget, ?_, e.isCanceledAs_canceledRecord id wall⟩, fun id' hne => ?_, rfl⟩
  · rw [MemoryQueue.cancel_some hget]
    rfl
  · rw [MemoryQueue.cancel_some hget]
    exact FiniteMap.get?_insert_self _ _ _
  · rw [MemoryQueue.cancel_some hget]
    exact ⟨FiniteMap.get?_erase_of_ne _ hne, FiniteMap.get?_insert_of_ne _ _ hne⟩

/-- The cancelation of an id that is neither registered nor queued answers that the id is not found,
and changes nothing. -/
theorem Sharing.cancel_unknown (hs : s.Sharing) (hnone : s.registry.get? id = none)
    (hoff : id ∉ s.queue.queuedIds) :
    s.cancel id wall = (.error (.backend (.notFound id)), s) := by
  rw [cancel_unregistered hnone, hs.apart.wellFormed.cancel_unqueued hoff]
  rfl

/-! ### Spent ids -/

/-- The id was given and is not queued any more. -/
structure OffQueue (s : Scheduler MemoryQueue η) (id : String) : Prop where
  /-- It was given. -/
  given : s.queue.Given id
  /-- It is not queued. -/
  unqueued : id ∉ s.queue.queuedIds

/-- The id is off the queue, and its task, if there is one, has been released. -/
structure Spent (s : Scheduler MemoryQueue η) (id : String) : Prop extends OffQueue s id where
  /-- Its task has been released. -/
  released : ∀ t ∈ s.tasks, t.id = id → t.released = true

/-- An id that is `OffQueue` stays so under every `SharedMove`. -/
theorem OffQueue.moveShared (h : s.OffQueue id) (hs : s.Sharing) (m : SharedMove η) :
    (s.moveShared m).OffQueue id := by
  obtain ⟨out, hpass, -⟩ := passes_moveShared hs.apart.wellFormed m
  have hnot := hpass.not_mem h.given h.unqueued
  exact ⟨hpass.given h.given, fun hmem => hnot (List.mem_append_right _ hmem)⟩

/-- A task whose id was `OffQueue` before a move was there before the move under the same id, and a
task that was released then is released still. -/
theorem OffQueue.exists_old (h : s.OffQueue id) (hs : s.Sharing) (m : SharedMove η) :
    ∀ t' ∈ (s.moveShared m).tasks, t'.id = id →
      ∃ t ∈ s.tasks, t.id = id ∧ (t.released = true → t'.released = true) := by
  intro t' ht' hid
  obtain ⟨out, hpass, new, hids, hnew⟩ := passes_moveShared hs.apart.wellFormed m
  obtain ⟨r, hr⟩ := List.mem_iff_getElem?.1 ht'
  cases ht : s.task? r with
  | none =>
    -- the task is new, so its id was taken off the queue by this move
    have hlist : s.tasks[r]? = none := ht
    have hlength : (s.tasks.map Task.id).length ≤ r := by
      rw [List.length_map]
      exact List.getElem?_eq_none_iff.1 hlist
    have hidr : ((s.moveShared m).tasks.map Task.id)[r]? = some id := by
      rw [List.getElem?_map, hr, ← hid]
      rfl
    rw [hids, List.getElem?_append_right hlength] at hidr
    have hmem : id ∈ new := List.mem_of_getElem? hidr
    rcases hnew with rfl | rfl
    · exact absurd (List.mem_append_left _ hmem) (hpass.not_mem h.given h.unqueued)
    · exact absurd hmem List.not_mem_nil
  | some t =>
    have hlist : s.tasks[r]? = some t := ht
    cases m with
    | own m =>
      obtain ⟨u, hu, hturn⟩ := (turns_move hs.consistent.tidy.tracked m).old r t ht
      obtain rfl : t' = u := Option.some.inj (hr.symm.trans hu)
      obtain ⟨hpopped, hreleased⟩ := hturn.kept
      refine ⟨t, List.mem_of_getElem? hlist, ?_, hreleased⟩
      rw [← hid, Task.id, Task.id, hpopped]
    | other c =>
      obtain rfl : t = t' := Option.some.inj (hlist.symm.trans hr)
      exact ⟨t, List.mem_of_getElem? hlist, hid, fun hreleased => hreleased⟩

/-- Along a possible history an id that is `OffQueue` stays so and comes to no new task. -/
theorem OffQueue.afterShared (h : s.OffQueue id) (hs : s.Sharing) {moves : List (SharedMove η)}
    (hmoves : s.PossibleShared moves = true) :
    (s.afterShared moves).OffQueue id ∧
      ∀ t' ∈ (s.afterShared moves).tasks, t'.id = id → ∃ t ∈ s.tasks, t.id = id := by
  induction moves generalizing s with
  | nil => exact ⟨h, fun t ht hid => ⟨t, ht, hid⟩⟩
  | cons m moves ih =>
    obtain ⟨hm, hrest⟩ := Bool.and_eq_true_iff.1 hmoves
    obtain ⟨hoff, hold⟩ := ih (h.moveShared hs m) (hs.moveShared hm) hrest
    refine ⟨hoff, fun t' ht' hid => ?_⟩
    obtain ⟨u, hu, huid⟩ := hold t' ht' hid
    obtain ⟨t, ht, htid, -⟩ := h.exists_old hs m u hu huid
    exact ⟨t, ht, htid⟩

/-- An id that is `Spent` stays so under every `SharedMove`: its released task stays released, and
no new task has the id. -/
theorem Spent.moveShared (h : s.Spent id) (hs : s.Sharing) (m : SharedMove η) :
    (s.moveShared m).Spent id := by
  refine ⟨h.toOffQueue.moveShared hs m, fun t' ht' hid => ?_⟩
  obtain ⟨t, ht, htid, hreleased⟩ := h.toOffQueue.exists_old hs m t' ht' hid
  exact hreleased (h.released t ht htid)

/-- An id that is `Spent` is not registered. -/
theorem Spent.get?_registry (h : s.Spent id) (hs : s.Sharing) : s.registry.get? id = none := by
  rw [Option.eq_none_iff_forall_not_mem]
  intro r hget
  obtain ⟨t, ht, hid, -, hreleased⟩ := hs.consistent.listed id r hget
  exact absurd (h.released t (List.mem_of_getElem? ht) hid) (by simp [hreleased])

/-- Whether a move is a cancelation of the id, or the second half of one that did not find it in the
registry, and succeeds. -/
def cancelsOk (s : Scheduler MemoryQueue η) (id : String) : SharedMove η → Bool
  | .own (.event (.cancel id' wall)) => decide (id' = id) && (s.cancel id' wall).1.isOk
  | .own (.cancelQueued id' wall) => decide (id' = id) && (s.queue.cancel id' wall).1.isOk
  | _ => false

/-- How often the id is canceled with success in a history. -/
def okCancels (s : Scheduler MemoryQueue η) (id : String) : List (SharedMove η) → Nat
  | [] => 0
  | m :: moves => (s.cancelsOk id m).toNat + (s.moveShared m).okCancels id moves

/-- The cancelation of an id that is `Spent` fails. -/
theorem Spent.cancelsOk_eq_false (h : s.Spent id) (hs : s.Sharing) (m : SharedMove η) :
    s.cancelsOk id m = false := by
  unfold cancelsOk
  split
  next id' wall =>
    by_cases hid : id' = id
    · subst hid
      rw [hs.cancel_unknown (h.get?_registry hs) h.unqueued]
      exact Bool.and_false _
    · simp [hid]
  next id' wall =>
    by_cases hid : id' = id
    · subst hid
      rw [hs.apart.wellFormed.cancel_unqueued h.unqueued]
      exact Bool.and_false _
    · simp [hid]
  next => rfl

/-- Where the ids are `Apart`, no task has a queued id. -/
theorem Apart.id_ne_of_queued (hs : s.Apart) (hqueued : id ∈ s.queue.queuedIds) :
    ∀ t ∈ s.tasks, t.id ≠ id := by
  rintro t ht rfl
  exact (List.nodup_append.1 hs.nodup).2.2 _ (List.mem_map_of_mem ht) _ hqueued rfl

/-- An id is `Spent` after it was taken off the queue. -/
theorem Sharing.spent_of_takenOff (hs : s.Sharing) {s' : Scheduler MemoryQueue η}
    (hqueued : id ∈ s.queue.queuedIds) (hgiven : s'.queue.Given id)
    (hoff : id ∉ s'.queue.queuedIds) (htasks : s'.tasks = s.tasks) : s'.Spent id :=
  ⟨⟨hgiven, hoff⟩, fun t ht hid => absurd hid (hs.apart.id_ne_of_queued hqueued t (htasks ▸ ht))⟩

/-- `cancelTask` leaves the queue alone. -/
theorem queue_cancelTask (s : Scheduler MemoryQueue η) (r : TaskRef) :
    (s.cancelTask r).queue = s.queue := by
  unfold cancelTask
  split
  next => rfl
  next t ht =>
    split
    next => rfl
    next => exact congrArg Core.queue (core_releaseTask (taskEffect_mark ht).task)

/-- An id is `Spent` after its task was canceled in place: no other task has the id. -/
theorem Sharing.spent_of_cancelTask (hs : s.Sharing) (hhand : s.InHand r t)
    (hgoing : t.status.isTerminal = false) : (s.cancelTask r).Spent t.id := by
  obtain ⟨ht, -, -⟩ := hhand
  have hlist : s.tasks[r]? = some t := ht
  have heffect := taskEffect_cancelTask ht
  have hmem : t.id ∈ s.tasks.map Task.id := List.mem_map_of_mem (List.mem_of_getElem? ht)
  refine ⟨⟨?_, fun hqueued => ?_⟩, fun u hu hid => ?_⟩
  · rw [queue_cancelTask]
    exact hs.apart.given _ hmem
  · rw [queue_cancelTask] at hqueued
    exact hs.apart.id_ne_of_queued hqueued t (List.mem_of_getElem? ht) rfl
  · obtain ⟨r', hr'⟩ := List.mem_iff_getElem?.1 hu
    by_cases heq : r = r'
    · subst heq
      obtain rfl := Option.some.inj (heffect.task.symm.trans hr')
      simp [hgoing]
    · have hlist' : s.tasks[r']? = some u := (heffect.other heq).symm.trans hr'
      have hnodup := (List.nodup_append.1 hs.apart.nodup).1
      have hlt : r < (s.tasks.map Task.id).length := by
        rw [List.length_map]
        exact (List.getElem?_eq_some_iff.1 hlist).1
      refine absurd ((List.getElem?_inj hlt hnodup).1 ?_) heq
      rw [List.getElem?_map, List.getElem?_map, hlist, hlist', Option.map_some, Option.map_some,
        hid]

/-- An id is `Spent` after a cancelation of it that succeeded in one piece. -/
theorem Sharing.spent_of_cancelsOk (hs : s.Sharing) (hwhole : ∀ r, ¬ s.Halved r) {m : SharedMove η}
    (hok : s.cancelsOk id m = true) : (s.moveShared m).Spent id := by
  have hgiven : ∀ wall, id ∈ s.queue.queuedIds → (s.queue.cancel id wall).2.Given id :=
    fun wall hid =>
      (hs.apart.wellFormed.passes_cancel id wall).given (hs.apart.wellFormed.given hid)
  unfold cancelsOk at hok
  split at hok
  next id' wall =>
    obtain ⟨hid, hok⟩ := Bool.and_eq_true_iff.1 hok
    obtain rfl := of_decide_eq_true hid
    change (s.cancel id' wall).2.Spent id'
    cases hget : s.registry.get? id' with
    | some r =>
      obtain ⟨t, hhand, rfl⟩ := (hs.consistent.get?_registry_iff id' r).1 hget
      cases hfinal : t.status.isTerminal with
      | false =>
        have hcancel : (s.cancel t.id wall).2 = s.cancelTask r := by
          unfold cancel
          rw [hget]
          dsimp only
          split <;> rfl
        rw [hcancel]
        exact hs.spent_of_cancelTask hhand hfinal
      | true =>
        rw [cancel_final hget hhand.1 hfinal] at hok
        cases hstatus : t.status with
        | canceled => exact absurd ⟨t, hhand, hstatus⟩ (hwhole r)
        | done =>
          rw [hstatus] at hok
          exact absurd hok (by simp [Except.isOk, Except.toBool])
        | init => exact absurd hfinal (by rw [hstatus]; decide)
        | running => exact absurd hfinal (by rw [hstatus]; decide)
    | none =>
      by_cases hqueued : id' ∈ s.queue.queuedIds
      · obtain ⟨-, hoff, -, -, hothers⟩ := hs.cancel_queued hget hqueued wall
        refine hs.spent_of_takenOff hqueued ?_ hoff (by rw [hothers])
        rw [cancel_unregistered hget]
        exact hgiven wall hqueued
      · rw [hs.cancel_unknown hget hqueued] at hok
        exact absurd hok (by simp [Except.isOk, Except.toBool])
  next id' wall =>
    obtain ⟨hid, hok⟩ := Bool.and_eq_true_iff.1 hok
    obtain rfl := of_decide_eq_true hid
    by_cases hqueued : id' ∈ s.queue.queuedIds
    · exact hs.spent_of_takenOff hqueued (hgiven wall hqueued)
        (hs.apart.wellFormed.unqueued_cancel id' wall) rfl
    · rw [hs.apart.wellFormed.cancel_unqueued hqueued] at hok
      exact absurd hok (by simp [Except.isOk, Except.toBool])
  next => exact absurd hok (by simp)

/-- Along a possible history in which cancelations in place are in one piece, `okCancels` of an id
is one at most. -/
theorem Sharing.okCancels_le_one (hs : s.Sharing) (hwhole : ∀ r, ¬ s.Halved r)
    {moves : List (SharedMove η)} (hmoves : s.PossibleShared moves = true)
    (hpieces : ∀ r, .own (.markCanceled r) ∉ moves) :
    s.okCancels id moves ≤ 1 ∧ (s.Spent id → s.okCancels id moves = 0) := by
  induction moves generalizing s with
  | nil => exact ⟨Nat.zero_le _, fun _ => rfl⟩
  | cons m moves ih =>
    obtain ⟨hm, hrest⟩ := Bool.and_eq_true_iff.1 hmoves
    have hwhole' : ∀ r, ¬ (s.moveShared m).Halved r := fun r hhalved =>
      (hs.halved_moveShared hhalved).elim (fun hmark => hpieces r (hmark ▸ List.mem_cons_self))
        fun hbefore => hwhole r hbefore.1
    have hpieces' : ∀ r, .own (.markCanceled r) ∉ moves := fun r hmem =>
      hpieces r (List.mem_cons_of_mem _ hmem)
    obtain ⟨hle, hzero⟩ := ih (hs.moveShared hm) hwhole' hrest hpieces'
    unfold okCancels
    constructor
    · cases hok : s.cancelsOk id m with
      | false => simpa using hle
      | true => rw [hzero (hs.spent_of_cancelsOk hwhole hok)]; rfl
    · intro hspent
      rw [hspent.cancelsOk_eq_false hs, hzero (hspent.moveShared hs m)]
      rfl

/-! ### Every state, every id -/

/-- However the steps of a scheduler and the calls of others follow each other, and whatever the id:
a cancelation of it finds a registered task, a queued one, or none.

A registered task that is waiting or running is canceled, leaves the registry, and its token is
canceled; one that is done is left alone, and the cancelation says so.  A queued one is taken off
the queue and recorded as canceled, and nobody ever gets it.  In all other cases the id is not found
and nothing changes.  A registered task is canceled already only while somebody else is in the
middle of canceling it; then nothing changes either.  If cancelations in place are always in one
piece, this does not happen, and no id is canceled twice. -/
theorem cancel_answers (config : SchedulerConfig) {queue : MemoryQueue} (hqueue : queue.WellFormed)
    (metrics : Option Metrics) (moves : List (SharedMove η)) (id : String)
    (hmoves : (new config queue metrics).PossibleShared moves = true) :
    let s₀ : Scheduler MemoryQueue η := new config queue metrics
    let s := s₀.afterShared moves
    (∀ r wall, s.registry.get? id = some r → ∃ t, s.task? r = some t ∧ t.id = id ∧
      (t.status = .init ∨ t.status = .running →
        (s.cancel id wall).1 = .ok () ∧ CanceledInPlace (s.cancel id wall).2 r t) ∧
      (t.status = .done → s.cancel id wall = (.error (.taskFinished id), s)) ∧
      (t.status = .canceled → s.cancel id wall = (.ok (), s) ∧
        ∃ before after, moves = before ++ .own (.markCanceled r) :: after ∧
          .own (.dropCanceled r) ∉ after)) ∧
    (∀ wall, s.registry.get? id = none → id ∈ s.queue.queuedIds →
      let s' := (s.cancel id wall).2
      (s.cancel id wall).1 = .ok () ∧ TakenOff s s' id wall ∧
        ∀ later, s'.PossibleShared later = true →
          id ∉ (s'.afterShared later).queue.queuedIds ∧
            ∀ t ∈ (s'.afterShared later).tasks, t.id ≠ id) ∧
    (∀ wall, s.registry.get? id = none → id ∉ s.queue.queuedIds →
      s.cancel id wall = (.error (.backend (.notFound id)), s)) ∧
    ((∀ r, .own (.markCanceled r) ∉ moves) →
      (∀ r t, s.registry.get? id = some r → s.task? r = some t → t.status ≠ .canceled) ∧
        s₀.okCancels id moves ≤ 1) := by
  intro s₀ s
  have hnew : s₀.Sharing := sharing_new config hqueue metrics
  have hs : s.Sharing := hnew.afterShared hmoves
  have hfresh : ∀ r, ¬ s₀.Halved r := by
    rintro r ⟨t, ⟨ht, -⟩, -⟩
    exact absurd ht (by simp [s₀, task?, new])
  have hbetween : ∀ r, s.Halved r → ∃ before after,
      moves = before ++ .own (.markCanceled r) :: after ∧ .own (.dropCanceled r) ∉ after :=
    fun r hhalved => (hnew.halved_afterShared hmoves hhalved).resolve_left fun h => hfresh r h.1
  refine ⟨fun r wall hget => ?_, fun wall hnone hqueued => ?_, fun wall hnone hoff => ?_,
    fun hpieces => ⟨fun r t hget ht hcanceled => ?_, ?_⟩⟩
  · obtain ⟨t, hhand, rfl⟩ := (hs.consistent.get?_registry_iff id r).1 hget
    refine ⟨t, hhand.1, rfl, fun hgoing => ?_, fun hdone => ?_, fun hcanceled => ⟨?_, ?_⟩⟩
    · refine hs.cancel_going hget hhand ?_
      rcases hgoing with hstatus | hstatus <;> rw [hstatus] <;> rfl
    · rw [cancel_final hget hhand.1 (by rw [hdone]; rfl), if_pos hdone]
    · rw [cancel_final hget hhand.1 (by rw [hcanceled]; rfl), if_neg (by simp [hcanceled])]
    · exact hbetween r ⟨t, hhand, hcanceled⟩
  · obtain ⟨hok, htaken⟩ := hs.cancel_queued hnone hqueued wall
    have hallowed : s.AllowsShared (.own (.event (.cancel id wall))) = true := rfl
    have hs' : (s.cancel id wall).2.Sharing := hs.moveShared hallowed
    have hoff : (s.cancel id wall).2.OffQueue id := by
      refine ⟨?_, htaken.unqueued⟩
      rw [cancel_unregistered hnone]
      exact (hs.apart.wellFormed.passes_cancel id wall).given (hs.apart.wellFormed.given hqueued)
    refine ⟨hok, htaken, fun later hlater => ?_⟩
    obtain ⟨hstill, hold⟩ := hoff.afterShared hs' hlater
    refine ⟨hstill.unqueued, fun t ht hid => ?_⟩
    obtain ⟨u, hu, huid⟩ := hold t ht hid
    rw [htaken.others] at hu
    exact hs.apart.id_ne_of_queued hqueued u hu huid
  · exact hs.cancel_unknown hnone hoff
  · obtain ⟨u, hhand, rfl⟩ := (hs.consistent.get?_registry_iff id r).1 hget
    obtain rfl : t = u := Option.some.inj (ht.symm.trans hhand.1)
    obtain ⟨before, after, hsplit, -⟩ := hbetween r ⟨t, hhand, hcanceled⟩
    exact hpieces r (by rw [hsplit]; simp)
  · exact (hnew.okCancels_le_one hfresh hmoves hpieces).1

/-- Somebody else pushes two tasks; the first is popped and registered, is canceled, and is canceled
again. -/
def sharedHistory (wall : Timestamp) : List (SharedMove Unit) :=
  let pushes : List (SharedMove Unit) :=
    [.other (.push ⟨"job", .null, none⟩ 0), .other (.push ⟨"job", .null, none⟩ 0)]
  let moves : List (Event Unit) := [.callRun, .ping 0, .stepPop 0, .pop 0 wall, .stepPop 0,
    .cancel "1" wall, .cancel "1" wall]
  pushes ++ moves.map fun e => .own (.event e)

/-- After the first seven moves of `sharedHistory` the task of the id 1 is registered, that of the
id 2 is queued, and the id 3 is unknown; `cancel_answers` says of each what a cancelation does. -/
theorem cancel_answers_shared :
    let s₀ : Scheduler MemoryQueue Unit := new .default {} none
    let s := s₀.afterShared ((sharedHistory .epoch).take 7)
    s₀.PossibleShared (sharedHistory .epoch) = true ∧
      ((s.cancel "1" .epoch).1 = .ok () ∧
        ∃ t, t.id = "1" ∧ CanceledInPlace (s.cancel "1" .epoch).2 0 t) ∧
      ((s.cancel "2" .epoch).1 = .ok () ∧ TakenOff s (s.cancel "2" .epoch).2 "2" .epoch) ∧
      s.cancel "3" .epoch = (.error (.backend (.notFound "3")), s) ∧
      s₀.okCancels "1" (sharedHistory .epoch) ≤ 1 := by
  intro s₀ s
  have hpossible : s₀.PossibleShared (sharedHistory .epoch) = true := by decide
  have hpossible' : s₀.PossibleShared ((sharedHistory .epoch).take 7) = true := by decide
  have hwhole : ∀ r, .own (.markCanceled r) ∉ sharedHistory .epoch := by
    intro r
    simp [sharedHistory]
  have hanswers (id : String) := cancel_answers .default MemoryQueue.WellFormed.empty none
    ((sharedHistory .epoch).take 7) id hpossible'
  obtain ⟨hregistered, -⟩ := hanswers "1"
  obtain ⟨-, hqueued, -⟩ := hanswers "2"
  obtain ⟨-, -, hunknown, -⟩ := hanswers "3"
  obtain ⟨-, -, -, hpieces⟩ := cancel_answers .default MemoryQueue.WellFormed.empty none
    (sharedHistory .epoch) "1" hpossible
  obtain ⟨t, ht, hid, hgoing, -⟩ := hregistered 0 .epoch (by decide)
  have hinit : t.status = .init := by
    have hstatus : (s.task? 0).map Task.status = some .init := by decide
    rw [ht] at hstatus
    exact Option.some.inj hstatus
  obtain ⟨hok, hcanceled⟩ := hgoing (.inl hinit)
  obtain ⟨hok', htaken, -⟩ := hqueued .epoch (by decide) (by decide)
  have hnone := hunknown .epoch (by decide) (by decide)
  obtain ⟨-, honce⟩ := hpieces hwhole
  exact ⟨hpossible, ⟨hok, t, hid, hcanceled⟩, ⟨hok', htaken⟩, hnone, honce⟩

end Scheduler

end TaskScheduler
