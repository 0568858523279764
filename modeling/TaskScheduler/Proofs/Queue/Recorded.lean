import TaskScheduler.Proofs.Queue.Contract

/-!
# What a queue records of an id

A contract about the ids of a queue says nothing of its records.  `QueueRecords` adds them, as the
answers of `get_result` show them: a cancelation of a queued id that succeeds makes a record of it
that says so, and what is noted of an id is left alone by every operation on another one.  The
record lasts until its time to live ends.

`Journal.Noted` carries this through the calls of a history, and `Journal.Canceled` is what holds of
an id from the cancelation on that took it off the queue.
-/

namespace TaskScheduler

/-- What a queue may have noted of an id. -/
inductive Note where
  /-- Nothing. -/
  | blank
  /-- The envelope of a push, and that its task is queued. -/
  | body (e : Envelope)
  /-- The envelope of a push, and that its task was canceled at this time. -/
  | canceled (e : Envelope) (wall : Timestamp)

/-- The records of a queue that keeps the contract `C`. -/
structure QueueRecords {β : Type} [TaskQueue β] (C : QueueContract β) where
  /-- What `get_result` answers for an id, when it is asked at some time. -/
  get : β → String → Timestamp → Except QueueError (Option ResultRecord)
  /-- The time to live of the record of an id has ended, and the record is gone. -/
  HasLapsed : β → String → Prop
  /-- What a cancelation at this time writes beside this envelope can be read back. -/
  Reads : Envelope → Timestamp → Prop
  /-- The queue has noted this of an id. -/
  Notes : β → String → Note → Prop
  /-- A push notes the envelope of the new task. -/
  push : ∀ {q n ids}, C.Holds q n ids → C.HasRoom n → Notes q (C.name (n + 1)) .blank →
    ∀ e priority, Notes (TaskQueue.push q e priority).2 (C.name (n + 1)) (.body e)
  /-- A push leaves what is noted of all ids but the new one. -/
  push_other : ∀ {q n ids}, C.Holds q n ids → C.HasRoom n → ∀ {id note}, id ≠ C.name (n + 1) →
    Notes q id note → ∀ e priority, Notes (TaskQueue.push q e priority).2 id note
  /-- A pop leaves what is noted of all ids but the one that it takes off. -/
  pop_other : ∀ {q n ids}, C.Holds q n ids → ∀ {id note now},
    id ∉ takenIds (TaskQueue.pop q now).1 → Notes q id note → Notes (TaskQueue.pop q now).2 id note
  /-- A cancelation that succeeds notes that the task was canceled. -/
  cancel : ∀ {q n ids}, C.Holds q n ids → ∀ {id e now}, Notes q id (.body e) →
    (TaskQueue.cancel q id now).1 = .ok () →
    Notes (TaskQueue.cancel q id now).2 id (.canceled e now)
  /-- A cancelation leaves what is noted of other ids, and of its own if it does not find it. -/
  cancel_other : ∀ {q n ids}, C.Holds q n ids → ∀ {id id' note now},
    (id = id' → (TaskQueue.cancel q id' now).1 = .error (.notFound id')) → Notes q id note →
    Notes (TaskQueue.cancel q id' now).2 id note
  /-- A report leaves what is noted of other ids. -/
  report_other : ∀ {q n ids}, C.Holds q n ids → ∀ {id note} {r : TaskReport}, id ≠ r.id →
    Notes q id note → ∀ now, Notes (TaskQueue.report q r now).2 id note
  /-- A canceled task is answered as such, without a result, until its record is gone. -/
  get_canceled : ∀ {q id e wall}, Notes q id (.canceled e wall) → ¬ HasLapsed q id →
    Reads e wall → ∀ now, get q id now =
      .ok (some ⟨id, e.taskType, .canceled, some "task canceled", none, 0, wall⟩)

/-- `K.IsNew q` says that the queue has noted nothing of the ids that are to be given. -/
def QueueRecords.IsNew {β : Type} [TaskQueue β] {C : QueueContract β} (K : QueueRecords C)
    (q : β) : Prop :=
  ∀ n, C.HasRoom n → K.Notes q (C.name (n + 1)) .blank

/-! ### The queue in memory -/

namespace MemoryQueue

/-- What `MemoryQueue` has noted of an id: the envelope of a queued task is kept with its place, and
a cancelation is a record. -/
def Notes (m : MemoryQueue) (id : String) : Note → Prop
  | .blank => True
  | .body e => ∃ key, m.queued.get? id = some (key, e)
  | .canceled e wall =>
    m.get id = some ⟨id, e.taskType, .canceled, some "task canceled", none, 0, wall⟩

/-- `Notes` looks at the body and at the record of the id only. -/
theorem Notes.congr {m m' : MemoryQueue} {id : String} {note : Note} (h : m.Notes id note)
    (hqueued : m'.queued.get? id = m.queued.get? id)
    (hresults : m'.results.get? id = m.results.get? id) : m'.Notes id note := by
  cases note with
  | blank => trivial
  | body e =>
    obtain ⟨key, hkey⟩ := h
    exact ⟨key, hqueued.trans hkey⟩
  | canceled e wall => exact hresults.trans h

/-- `MemoryQueue` keeps records: they last, and any cancelation can be read back. -/
def records : QueueRecords contract where
  get m id _ := .ok (m.get id)
  HasLapsed _ _ := False
  Reads _ _ := True
  Notes := Notes
  push := by
    rintro m n ids ⟨-, rfl, -⟩ - - e priority
    exact ⟨⟨priority, m.seq + 1⟩, (get?_push m e priority _).trans (if_pos rfl)⟩
  push_other := by
    rintro m n ids ⟨-, rfl, -⟩ - id note hne hnote e priority
    exact hnote.congr ((get?_push m e priority id).trans (if_neg hne)) rfl
  pop_other := by
    rintro m n ids ⟨h, -, -⟩ id note now hid hnote
    cases horder : m.order with
    | nil =>
      have hpop : TaskQueue.pop m now = (.error .empty, m) := pop_nil horder
      rwa [hpop]
    | cons o rest =>
      obtain ⟨e, hget⟩ := h.bodies o (horder ▸ List.mem_cons_self)
      have hpop : TaskQueue.pop m now = _ := pop_cons horder hget
      rw [hpop] at hid ⊢
      have hne : id ≠ o.2 := fun heq => hid (List.mem_singleton.2 heq)
      exact hnote.congr (FiniteMap.get?_erase_of_ne _ hne) rfl
  cancel := by
    rintro m n ids - id e now ⟨key, hkey⟩ -
    have hcancel : TaskQueue.cancel m id now = _ := cancel_some hkey now
    rw [hcancel]
    exact FiniteMap.get?_insert_self _ _ _
  cancel_other := by
    rintro m n ids - id id' note now hother hnote
    cases hget : m.queued.get? id' with
    | none =>
      have hcancel : TaskQueue.cancel m id' now = (.error (.notFound id'), m) :=
        cancel_none hget now
      rwa [hcancel]
    | some x =>
      have hcancel : TaskQueue.cancel m id' now = _ := cancel_some hget now
      have hne : id ≠ id' := by
        intro heq
        have hmissed := hother heq
        rw [hcancel] at hmissed
        cases hmissed
      rw [hcancel]
      exact hnote.congr (FiniteMap.get?_erase_of_ne _ hne) (FiniteMap.get?_insert_of_ne _ _ hne)
  report_other := by
    rintro m n ids - id note r hne hnote now
    exact hnote.congr rfl (FiniteMap.get?_insert_of_ne _ _ hne)
  get_canceled h _ _ _ := congrArg Except.ok h

/-- Any `MemoryQueue` is new to its records, as `Note.blank` asks nothing of it. -/
theorem records_isNew (m : MemoryQueue) : records.IsNew m := fun _ _ => trivial

end MemoryQueue

/-! ### Notes along a history -/

namespace Journal

variable {β : Type} [TaskQueue β] {C : QueueContract β} {K : QueueRecords C} {j : Journal β}
  {ids : List String} {id i : String}

/-- The ids that are off the queue: popped, meant by a cancelation that found them, or
unreadable. -/
def gone (C : QueueContract β) (j : Journal β) : List String :=
  j.popped ++ (j.found.filterMap C.means ++ j.unreadable)

/-- A push into a `Traced` journal gives the next name of the contract, and notes it with the
envelope. -/
theorem Traced.push_eq (h : j.Traced C ids) (hroom : C.HasRoom j.pushes) (e : Envelope)
    (priority : Int64) :
    (TaskQueue.push j e priority).2 =
      { j with
        queue := (TaskQueue.push j.queue e priority).2
        pushes := j.pushes + 1
        pushed := j.pushed ++ [C.name (j.pushes + 1)]
        bodies := j.bodies ++ [(C.name (j.pushes + 1), e)] } := by
  obtain ⟨ids', hanswer, -, -⟩ := C.push h.holds hroom e priority
  change (j.push e priority).2 = _
  unfold Journal.push
  generalize TaskQueue.push j.queue e priority = result at hanswer ⊢
  obtain ⟨answer, q⟩ := result
  dsimp only at hanswer
  subst hanswer
  rfl

/-- Two journals have noted the same pushes. -/
structure SamePushes (j j' : Journal β) : Prop where
  /-- There were as many. -/
  pushes : j'.pushes = j.pushes
  /-- They gave the same ids. -/
  pushed : j'.pushed = j.pushed
  /-- They were of the same envelopes. -/
  bodies : j'.bodies = j.bodies

/-- A pop pushes nothing, and the id that it takes off is `gone` after that. -/
theorem pop_gone (C : QueueContract β) (j : Journal β) (now : Timestamp) :
    j.SamePushes (TaskQueue.pop j now).2 ∧ ∀ x, x ∉ (TaskQueue.pop j now).2.gone C →
      x ∉ j.gone C ∧ x ∉ takenIds (TaskQueue.pop j.queue now).1 := by
  change j.SamePushes (j.pop now).2 ∧ ∀ x, x ∉ (j.pop now).2.gone C →
    x ∉ j.gone C ∧ x ∉ takenIds (TaskQueue.pop j.queue now).1
  unfold Journal.pop
  split
  next task q heq =>
    rw [heq]
    refine ⟨⟨rfl, rfl, rfl⟩, fun x hx => ?_⟩
    simp only [gone, takenIds, List.mem_append, List.mem_singleton] at hx ⊢
    tauto
  next id reason q heq =>
    rw [heq]
    refine ⟨⟨rfl, rfl, rfl⟩, fun x hx => ?_⟩
    simp only [gone, takenIds, List.mem_append, List.mem_singleton] at hx ⊢
    tauto
  next err q hreadable heq =>
    rw [heq]
    refine ⟨⟨rfl, rfl, rfl⟩, fun x hx => ⟨hx, ?_⟩⟩
    have hnone : takenIds (.error err) = [] := by
      unfold takenIds
      split <;> simp_all
    rw [hnone]
    exact List.not_mem_nil

/-- A cancelation pushes nothing.  If it is not answered with `notFound`, the id that it means is
`gone` after that. -/
theorem cancel_gone (C : QueueContract β) (j : Journal β) (id : String) (now : Timestamp) :
    j.SamePushes (TaskQueue.cancel j id now).2 ∧
      ∀ x, x ∉ (TaskQueue.cancel j id now).2.gone C → x ∉ j.gone C ∧
        (C.means id = some x →
          ∃ id', (TaskQueue.cancel j.queue id now).1 = .error (.notFound id')) := by
  change j.SamePushes (j.cancel id now).2 ∧ ∀ x, x ∉ (j.cancel id now).2.gone C → x ∉ j.gone C ∧
    (C.means id = some x → ∃ id', (TaskQueue.cancel j.queue id now).1 = .error (.notFound id'))
  unfold Journal.cancel
  split
  next id' q heq =>
    rw [heq]
    exact ⟨⟨rfl, rfl, rfl⟩, fun x hx => ⟨hx, fun _ => ⟨id', rfl⟩⟩⟩
  next answer q hfound heq =>
    refine ⟨⟨rfl, rfl, rfl⟩, fun x hx => ?_⟩
    simp only [gone, List.mem_append, List.filterMap_append] at hx ⊢
    refine ⟨by tauto, fun hmeans => absurd ?_ hx⟩
    exact .inr (.inl (.inr (by simp [hmeans])))

/-- The queue has noted nothing of the ids that are to be given, and for those that are not `gone`
the envelopes that were pushed. -/
structure Noted (K : QueueRecords C) (j : Journal β) : Prop where
  /-- Nothing is noted of an id before its push. -/
  ahead : ∀ n, j.pushes ≤ n → C.HasRoom n → K.Notes j.queue (C.name (n + 1)) .blank
  /-- Envelopes are remembered under ids that were given. -/
  given : ∀ x ∈ j.bodies, x.1 ∈ j.pushed
  /-- A queued task has the envelope of its push. -/
  waiting : ∀ x ∈ j.bodies, x.1 ∉ j.gone C → K.Notes j.queue x.1 (.body x.2)

/-- In a `Traced` journal a name that is to be given was not given before. -/
theorem Traced.name_not_mem (h : j.Traced C ids) {n : Nat} (hn : j.pushes ≤ n) :
    C.name (n + 1) ∉ j.pushed := by
  rw [h.pushed]
  intro hmem
  obtain ⟨k, hk, heq⟩ := List.mem_map.1 hmem
  rw [List.mem_range'_1] at hk
  have hkn := C.name_injective heq
  omega

/-- In a `Traced` journal what is queued or `gone` was given by a push. -/
theorem Traced.mem_pushed (h : j.Traced C ids) {x : String} (hx : x ∈ ids ∨ x ∈ j.gone C) :
    x ∈ j.pushed :=
  h.placed.mem_iff.2 (List.mem_append.2 hx)

/-- In a `Traced` journal what is queued is not `gone`. -/
theorem Traced.not_mem_gone (h : j.Traced C ids) {x : String} (hx : x ∈ ids) : x ∉ j.gone C :=
  fun hgone => (List.nodup_append.1 (h.placed.nodup_iff.1 h.nodup_pushed)).2.2 x hx x hgone rfl

/-- The journal of a queue that is new to its records is `Noted`. -/
theorem noted_start {queue : β} (h : K.IsNew queue) : ({ queue := queue } : Journal β).Noted K where
  ahead n _ hroom := h n hroom
  given := List.forall_mem_nil _
  waiting := List.forall_mem_nil _

namespace Noted

/-- A push keeps the journal `Noted`: it notes the envelope of the new task and leaves the other
notes. -/
theorem push (hj : j.Noted K) (h : j.Traced C ids) (hroom : C.HasRoom j.pushes) (e : Envelope)
    (priority : Int64) : (TaskQueue.push j e priority).2.Noted K := by
  rw [h.push_eq hroom]
  constructor
  · dsimp only
    intro n hn hroom'
    refine K.push_other h.holds hroom (fun heq => ?_) (hj.ahead n (by omega) hroom') e priority
    have hlast := C.name_injective heq
    omega
  · dsimp only
    refine List.forall_mem_append.2 ⟨fun x hx => List.mem_append_left _ (hj.given x hx), ?_⟩
    exact List.forall_mem_singleton.2 (List.mem_append_right _ (List.mem_singleton_self _))
  · dsimp only
    refine List.forall_mem_append.2 ⟨fun x hx hgone => ?_, List.forall_mem_singleton.2 fun _ => ?_⟩
    · refine K.push_other h.holds hroom (fun heq => ?_) (hj.waiting x hx hgone) e priority
      exact h.name_not_mem (Nat.le_refl _) (heq ▸ hj.given x hx)
    · exact K.push h.holds hroom (hj.ahead _ (Nat.le_refl _) hroom) e priority

/-- A pop keeps the journal `Noted`: it changes only what is noted of the id that it takes off. -/
theorem pop (hj : j.Noted K) (h : j.Traced C ids) (now : Timestamp) :
    (TaskQueue.pop j now).2.Noted K := by
  obtain ⟨hsame, hgone⟩ := j.pop_gone C now
  have hqueue := (j.pop_queue now).1
  have htaken : ∀ x ∈ takenIds (TaskQueue.pop j.queue now).1, x ∈ j.pushed := by
    intro x hx
    obtain ⟨ids', -, hperm⟩ := C.pop h.holds now
    exact h.mem_pushed (.inl (hperm.mem_iff.2 (List.mem_append_left _ hx)))
  constructor
  · intro n hn hroom
    rw [hsame.pushes] at hn
    rw [hqueue]
    exact K.pop_other h.holds (fun hx => h.name_not_mem hn (htaken _ hx)) (hj.ahead n hn hroom)
  · rw [hsame.bodies, hsame.pushed]
    exact hj.given
  · rw [hsame.bodies, hqueue]
    intro x hx hxgone
    obtain ⟨hbefore, hleft⟩ := hgone x.1 hxgone
    exact K.pop_other h.holds hleft (hj.waiting x hx hbefore)

/-- A cancelation keeps the journal `Noted`: it changes only what is noted of an id that it
finds. -/
theorem cancel (hj : j.Noted K) (h : j.Traced C ids) (hroom : ∀ n < j.pushes, C.HasRoom n)
    (id : String) (now : Timestamp) : (TaskQueue.cancel j id now).2.Noted K := by
  obtain ⟨hsame, hgone⟩ := j.cancel_gone C id now
  have hqueue := (j.cancel_queue id now).1
  constructor
  · intro n hn hroom'
    rw [hsame.pushes] at hn
    rw [hqueue]
    refine K.cancel_other h.holds (fun heq => ?_) (hj.ahead n hn hroom')
    refine (C.cancel_notFound h.holds (fun k hk hmem => ?_) now).1
    obtain rfl : C.name (n + 1) = k := Option.some.inj ((C.means_name hroom').symm.trans (heq ▸ hk))
    exact h.name_not_mem hn (h.mem_pushed (.inl hmem))
  · rw [hsame.bodies, hsame.pushed]
    exact hj.given
  · rw [hsame.bodies, hqueue]
    intro x hx hxgone
    obtain ⟨hbefore, hmissed⟩ := hgone x.1 hxgone
    refine K.cancel_other h.holds (fun heq => ?_) (hj.waiting x hx hbefore)
    have hmeans : C.means id = some x.1 := heq ▸ h.means_of_mem hroom (hj.given x hx)
    obtain ⟨id', hid'⟩ := hmissed hmeans
    refine (C.cancel_notFound h.holds (fun k hk hmem => ?_) now).1
    obtain ⟨ids', hfound, -, -⟩ := C.cancel_found h.holds hk hmem now
    exact hfound id' hid'

/-- The report of a task that was popped keeps the journal `Noted`, as it changes nothing that is
noted of a queued one. -/
theorem report (hj : j.Noted K) (h : j.Traced C ids) {r : TaskReport} (hr : r.id ∈ j.popped)
    (now : Timestamp) : (TaskQueue.report j r now).2.Noted K := by
  have hgone : r.id ∈ j.gone C := List.mem_append_left _ hr
  constructor
  · intro n hn hroom
    refine K.report_other h.holds (fun heq => ?_) (hj.ahead n hn hroom) now
    exact h.name_not_mem hn (heq ▸ h.mem_pushed (.inr hgone))
  · exact hj.given
  · intro x hx hxgone
    refine K.report_other h.holds (fun heq => ?_) (hj.waiting x hx hxgone) now
    exact hxgone (heq ▸ hgone)

end Noted

/-! ### Canceled ids -/

/-- The id `i` that a caller meant by `id` is off the queue by a cancelation.  If the caller gave
the id as a push did, the queue has noted that its task was canceled. -/
structure Canceled (K : QueueRecords C) (j : Journal β) (id i : String) (wall : Timestamp) :
    Prop where
  /-- This id was meant. -/
  means : C.means id = some i
  /-- A cancelation found it. -/
  found : id ∈ j.found
  /-- The cancelation is noted beside the envelope of the push. -/
  noted : ∀ e, (id, e) ∈ j.bodies → K.Notes j.queue id (.canceled e wall)

/-- A cancelation that is answered with `ok` has found its id, and leaves the journal `Canceled` for
it. -/
theorem Noted.canceled (hj : j.Noted K) (h : j.Traced C ids) (hroom : ∀ n < j.pushes, C.HasRoom n)
    {now : Timestamp} (hok : (TaskQueue.cancel j id now).1 = .ok ()) :
    ∃ i, (TaskQueue.cancel j id now).2.Canceled K id i now := by
  rw [cancel_fst] at hok
  by_cases hqueued : ∃ i, C.means id = some i ∧ i ∈ ids
  · obtain ⟨i, hmeans, hi⟩ := hqueued
    refine ⟨i, hmeans, ?_, ?_⟩
    · change id ∈ (j.cancel id now).2.found
      unfold Journal.cancel
      split
      next heq =>
        rw [heq] at hok
        exact absurd hok (by simp)
      next => exact List.mem_append_right _ (List.mem_singleton_self _)
    · rw [(j.cancel_gone C id now).1.bodies, (j.cancel_queue id now).1]
      intro e he
      obtain rfl : id = i :=
        Option.some.inj ((h.means_of_mem hroom (hj.given _ he)).symm.trans hmeans)
      exact K.cancel h.holds (hj.waiting _ he (h.not_mem_gone hi)) hok
  · rw [(C.cancel_notFound h.holds (fun i hi hmem => hqueued ⟨i, hi, hmem⟩) now).1] at hok
    exact absurd hok (by simp)

/-- An id that is `Canceled` in a `Traced` journal is that of a push, and is neither queued nor
popped. -/
theorem Traced.not_mem_of_canceled (h : j.Traced C ids) {wall : Timestamp}
    (hc : j.Canceled K id i wall) : i ∈ j.pushed ∧ i ∉ ids ∧ i ∉ j.popped := by
  have hmem : i ∈ j.found.filterMap C.means := List.mem_filterMap.2 ⟨id, hc.found, hc.means⟩
  have hgone : i ∈ j.gone C := List.mem_append_right _ (List.mem_append_left _ hmem)
  have hnodup := h.placed.nodup_iff.1 h.nodup_pushed
  refine ⟨h.mem_pushed (.inr hgone), fun hi => h.not_mem_gone hi hgone, fun hi => ?_⟩
  exact (List.nodup_append.1 (List.nodup_append.1 hnodup).2.1).2.2 i hi i
    (List.mem_append_left _ hmem) rfl

/-- No id that is queued or popped in a `Traced` journal is what a canceled id is or means. -/
theorem Traced.ne_of_canceled (h : j.Traced C ids) (hroom : ∀ n < j.pushes, C.HasRoom n)
    {wall : Timestamp} (hc : j.Canceled K id i wall) {x : String} (hx : x ∈ ids ∨ x ∈ j.popped) :
    C.means id ≠ some x ∧ id ≠ x := by
  obtain ⟨-, hqueued, hpopped⟩ := h.not_mem_of_canceled hc
  have hne : C.means id ≠ some x := by
    rw [hc.means]
    rintro ⟨rfl⟩
    exact hx.elim hqueued hpopped
  refine ⟨hne, fun heq => hne ?_⟩
  rw [heq]
  exact h.means_of_mem hroom (h.mem_pushed (hx.imp_right (List.mem_append_left _)))

namespace Canceled

variable {wall : Timestamp}

/-- A push leaves the journal `Canceled` for an id. -/
theorem push (hc : j.Canceled K id i wall) (h : j.Traced C ids) (hroom : C.HasRoom j.pushes)
    (e : Envelope) (priority : Int64) : (TaskQueue.push j e priority).2.Canceled K id i wall := by
  have hne : id ≠ C.name (j.pushes + 1) := by
    rintro rfl
    obtain rfl := Option.some.inj (hc.means.symm.trans (C.means_name hroom))
    exact h.name_not_mem (Nat.le_refl _) (h.not_mem_of_canceled hc).1
  rw [h.push_eq hroom]
  refine ⟨hc.means, hc.found, fun e' he' => ?_⟩
  rcases List.mem_append.1 he' with hbefore | hnew
  · exact K.push_other h.holds hroom hne (hc.noted e' hbefore) e priority
  · exact absurd (congrArg Prod.fst (List.mem_singleton.1 hnew)) hne

/-- A pop leaves the journal `Canceled` for an id. -/
theorem pop (hc : j.Canceled K id i wall) (h : j.Traced C ids)
    (hroom : ∀ n < j.pushes, C.HasRoom n) (now : Timestamp) :
    (TaskQueue.pop j now).2.Canceled K id i wall := by
  obtain ⟨hqueue, hfound⟩ := j.pop_queue now
  have hleft : id ∉ takenIds (TaskQueue.pop j.queue now).1 := by
    intro hmem
    obtain ⟨ids', -, hperm⟩ := C.pop h.holds now
    exact (h.ne_of_canceled hroom hc (.inl (hperm.mem_iff.2 (List.mem_append_left _ hmem)))).2 rfl
  refine ⟨hc.means, by rw [hfound]; exact hc.found, ?_⟩
  rw [(j.pop_gone C now).1.bodies, hqueue]
  exact fun e he => K.pop_other h.holds hleft (hc.noted e he)

/-- Another cancelation leaves the journal `Canceled` for an id. -/
theorem cancel (hc : j.Canceled K id i wall) (h : j.Traced C ids) (id' : String)
    (now : Timestamp) : (TaskQueue.cancel j id' now).2.Canceled K id i wall := by
  obtain ⟨hqueue, hfound⟩ := j.cancel_queue id' now
  refine ⟨hc.means, ?_, ?_⟩
  · rcases hfound with hsame | hmore
    · rw [hsame]
      exact hc.found
    · rw [hmore]
      exact List.mem_append_left _ hc.found
  · rw [(j.cancel_gone C id' now).1.bodies, hqueue]
    refine fun e he => K.cancel_other h.holds (fun heq => ?_) (hc.noted e he)
    refine (C.cancel_notFound h.holds (fun k hk => ?_) now).1
    obtain rfl : i = k := Option.some.inj (hc.means.symm.trans (heq ▸ hk))
    exact (h.not_mem_of_canceled hc).2.1

/-- The report of a task that was popped leaves the journal `Canceled` for an id. -/
theorem report (hc : j.Canceled K id i wall) (h : j.Traced C ids)
    (hroom : ∀ n < j.pushes, C.HasRoom n) {r : TaskReport} (hr : r.id ∈ j.popped)
    (now : Timestamp) : (TaskQueue.report j r now).2.Canceled K id i wall := by
  have hne : id ≠ r.id := (h.ne_of_canceled hroom hc (.inr hr)).2
  exact ⟨hc.means, hc.found, fun e he => K.report_other h.holds hne (hc.noted e he) now⟩

end Canceled

end Journal

end TaskScheduler
