import TaskScheduler.Proofs.Queue.PopOrder
import TaskScheduler.Proofs.Queue.TimeToLive

/-!
# Stages of tasks

A task is queued, is handed out or canceled, and ends with a record that expires.  Four operations
write the state of a task, and two of them set a time to live.  `Tidy` says how the sorted set, the
hash of a task and its time to live fit together.  An operation concerns one task at most, so it
keeps the store tidy as soon as this task fits its new stage, and it moves this task along
`Stage.Next`.  A `pop` of a task that cannot be read does so twice, once in each half.
-/

namespace TaskScheduler.RedisQueue

open Redis

/-! ### Stages -/

/-- Where a task stands. -/
inductive Stage where
  /-- Its id was not given yet. -/
  | unissued
  /-- It is queued with its body. -/
  | queued (body : String)
  /-- It was handed out, and its body is kept. -/
  | popped (body : String)
  /-- It ended, after it was handed out or without that, and there is a record. -/
  | finished (out : Bool) (status : ReportStatus)
  /-- Its record expired. -/
  | expired (out : Bool)
  /-- Its hash is none that the queue writes. -/
  | unknown

namespace Stage

/-- The next stage of a task.  A task that was handed out and reported may be reported again, even
when its record expired. -/
inductive Next : Stage → Stage → Prop where
  /-- A task is pushed. -/
  | push (e : Envelope) : Next unissued (queued e.encode)
  /-- A queued task is handed out. -/
  | pop (body : String) : Next (queued body) (popped body)
  /-- A queued task is canceled. -/
  | cancel (body : String) : Next (queued body) (finished false .canceled)
  /-- A task that was handed out is reported. -/
  | report (body : String) (status : ReportStatus) : Next (popped body) (finished true status)
  /-- A task that was handed out is reported again. -/
  | reportAgain (status status' : ReportStatus) :
    Next (finished true status) (finished true status')
  /-- A record expires. -/
  | expire (out : Bool) (status : ReportStatus) : Next (finished out status) (expired out)
  /-- A task that was handed out is reported after its record expired. -/
  | reportLate (status : ReportStatus) : Next (expired true) (finished true status)

/-- A task moves to its next stage or stays where it is. -/
def Moves (a b : Stage) : Prop := a = b ∨ Next a b

/-- A task that stays at its stage `Moves`, too. -/
theorem Moves.refl (a : Stage) : a.Moves a := .inl rfl

/-- A task has ended. -/
def IsEnded : Stage → Prop
  | finished _ _ | expired _ => True
  | _ => False

/-- A task that ended `IsEnded` after every move. -/
theorem IsEnded.of_moves {a b : Stage} (h : a.IsEnded) (hmoves : a.Moves b) : b.IsEnded := by
  rcases hmoves with rfl | hnext
  · exact h
  · cases hnext with
    | push e => exact absurd h not_false
    | pop body => exact absurd h not_false
    | cancel body => exact trivial
    | report body status => exact trivial
    | reportAgain status status' => exact trivial
    | expire out status => exact trivial
    | reportLate status => exact trivial

/-- Whether a task was handed out. -/
def isOut : Stage → Bool
  | popped _ => true
  | finished out _ | expired out => out
  | unissued | queued _ | unknown => false

/-- The state that is written in the hash of a task. -/
def state? : Stage → Option String
  | queued _ => some "queued"
  | popped _ => some "popped"
  | finished _ status => some status.name
  | unissued | expired _ | unknown => none

/-- `state?` is `queued` at the stage of a queued task only. -/
theorem state?_eq_queued_iff {st : Stage} :
    st.state? = some "queued" ↔ ∃ body, st = queued body := by
  cases st with
  | finished out status => cases status <;> simp [state?, ReportStatus.name]
  | _ => simp [state?]

/-- `state?` is `popped` at the stage of a task that was handed out only. -/
theorem state?_eq_popped_iff {st : Stage} :
    st.state? = some "popped" ↔ ∃ body, st = popped body := by
  cases st with
  | finished out status => cases status <;> simp [state?, ReportStatus.name]
  | _ => simp [state?]

/-- `state?` is the name of an outcome at the stage of a task that ended only. -/
theorem state?_eq_name_iff {st : Stage} {status : ReportStatus} :
    st.state? = some status.name ↔ ∃ out, st = finished out status := by
  cases st with
  | finished out status' => cases status' <;> cases status <;> simp [state?, ReportStatus.name]
  | _ => cases status <;> simp [state?, ReportStatus.name]

/-- The hash and the time to live of a task at a stage. -/
def Fits (fields : FiniteMap Bytes Bytes) (ttl : Option Nat) : Stage → Prop
  | unissued => fields = .empty ∧ ttl = none
  | queued body =>
    textAt fields "state" = some "queued" ∧ textAt fields "data" = some body ∧ ttl = none
  | popped body =>
    textAt fields "state" = some "popped" ∧ textAt fields "data" = some body ∧ ttl = none
  | finished _ status =>
    textAt fields "state" = some status.name ∧ (textAt fields "finished_at").isSome ∧ ttl.isSome
  | expired _ => fields = .empty ∧ ttl = none
  | unknown => False

variable {fields : FiniteMap Bytes Bytes} {ttl : Option Nat} {st : Stage}

/-- The hash of a task that `Fits` a stage has the `state?` of this stage. -/
theorem Fits.state_eq (h : st.Fits fields ttl) : textAt fields "state" = st.state? := by
  cases st with
  | unissued => rw [h.1, textAt_empty]; rfl
  | queued body => exact h.1
  | popped body => exact h.1
  | finished out status => exact h.1
  | expired out => rw [h.1, textAt_empty]; rfl
  | unknown => exact absurd h not_false

/-- Of the tasks that `Fits` a stage, those that ended have a time to live. -/
theorem Fits.ttl_isSome_iff (h : st.Fits fields ttl) :
    ttl.isSome ↔ ∃ out status, st = finished out status := by
  cases st with
  | unissued => simp [h.2]
  | queued body => simp [h.2.2]
  | popped body => simp [h.2.2]
  | finished out status => simp [h.2.2]
  | expired out => simp [h.2]
  | unknown => exact absurd h not_false

end Stage

/-! ### Tidy stores -/

/-- The sorted set, the hashes and the times to live fit the stages of the tasks. -/
structure Tidy (q : RedisQueue) (s : Store) (n : Nat) (members : List Scored)
    (hash : String → FiniteMap Bytes Bytes) (stage : String → Stage) : Prop where
  /-- The store is laid out as a queue. -/
  layout : Layout q s n members
  /-- The store shows the hashes. -/
  view : Shows q s n members hash
  /-- Every hash and its time to live fit the stage of the task. -/
  fits : ∀ id, (stage id).Fits (hash id) (Store.ttl s (q.taskKey id))
  /-- The members are those of the queued tasks. -/
  queued : ∀ k, (∃ x ∈ members, x.member = memberText k) ↔ ∃ body, stage (idText k) = .queued body
  /-- The ids that were given are those of the pushes. -/
  issued : ∀ id, stage id ≠ .unissued ↔ ∃ k, 1 ≤ k ∧ k ≤ n ∧ id = idText k

/-- The tasks of a tidy store stand at the given stages. -/
def Stands (q : RedisQueue) (s : Store) (n : Nat) (stage : String → Stage) : Prop :=
  ∃ members hash, Tidy q s n members hash stage

variable {q client : RedisQueue} {s s' : Store} {n n' : Nat} {members members' : List Scored}
  {hash : String → FiniteMap Bytes Bytes} {stage stage' : String → Stage}

/-- In an empty store every task `Stands` at `unissued`. -/
theorem stands_empty (q : RedisQueue) : Stands q .empty 0 fun _ => .unissued := by
  refine ⟨[], fun _ => .empty, ⟨.empty q, .empty q, fun _ => ⟨rfl, rfl⟩, ?_, ?_⟩⟩
  · simp
  · simp

/-- A store is `Tidy` for all clients with one prefix if it is for one. -/
theorem Tidy.of_keyPrefix (h : Tidy q s n members hash stage)
    (hclient : client.config.keyPrefix = q.config.keyPrefix) :
    Tidy client s n members hash stage where
  layout := h.layout.of_keyPrefix hclient
  view := h.view.of_keyPrefix hclient
  fits := taskKey_of_keyPrefix hclient ▸ h.fits
  queued := h.queued
  issued := h.issued

/-- The hashes of a `Tidy` store are made of texts. -/
theorem Tidy.isText (h : Tidy q s n members hash stage) (id : String) : IsText (hash id) := by
  obtain ⟨hash', hview, htext⟩ := h.layout.view
  have hsame : hash' id = hash id := Except.ok.inj ((hview.hashes id).symm.trans (h.view.hashes id))
  exact hsame ▸ htext id

/-- The stages at which tasks stand are the same for all clients with one prefix (`Stands`). -/
theorem Stands.of_keyPrefix (h : Stands q s n stage)
    (hclient : client.config.keyPrefix = q.config.keyPrefix) : Stands client s n stage := by
  obtain ⟨members, hash, htidy⟩ := h
  exact ⟨members, hash, htidy.of_keyPrefix hclient⟩

/-- A change that concerns one task leaves the store `Tidy` when this task `Fits` its new stage. -/
theorem Tidy.of_task (h : Tidy q s n members hash stage) {id : String}
    {fields : FiniteMap Bytes Bytes} (st : Stage) (hlayout : Layout q s' n' members')
    (hview : Shows q s' n' members' (Function.update hash id fields))
    (httl : ∀ id', id' ≠ id → Store.ttl s' (q.taskKey id') = Store.ttl s (q.taskKey id'))
    (hfits : st.Fits fields (Store.ttl s' (q.taskKey id)))
    (hself : ∀ k, idText k = id →
      ((∃ x ∈ members', x.member = memberText k) ↔ ∃ body, st = .queued body))
    (hothers : ∀ k, idText k ≠ id →
      ((∃ x ∈ members', x.member = memberText k) ↔ ∃ x ∈ members, x.member = memberText k))
    (hissued : st ≠ .unissued)
    (hgiven : ∀ id', (∃ k, 1 ≤ k ∧ k ≤ n' ∧ id' = idText k) ↔
      id' = id ∨ ∃ k, 1 ≤ k ∧ k ≤ n ∧ id' = idText k) :
    Tidy q s' n' members' (Function.update hash id fields) (Function.update stage id st) where
  layout := hlayout
  view := hview
  fits id' := by
    rcases eq_or_ne id' id with rfl | hne
    · rw [Function.update_self, Function.update_self]
      exact hfits
    · rw [Function.update_of_ne hne, Function.update_of_ne hne, httl id' hne]
      exact h.fits id'
  queued k := by
    rcases eq_or_ne (idText k) id with heq | hne
    · rw [hself k heq, heq, Function.update_self]
    · rw [hothers k hne, Function.update_of_ne hne, h.queued]
  issued id' := by
    rw [hgiven, ← h.issued]
    rcases eq_or_ne id' id with rfl | hne
    · rw [Function.update_self]
      exact iff_of_true hissued (.inl rfl)
    · rw [Function.update_of_ne hne, or_iff_right hne]

/-- A change that concerns a task of a `Tidy` store that was pushed before gives no new id. -/
theorem Tidy.given_iff (h : Tidy q s n members hash stage) {id : String}
    (hid : stage id ≠ .unissued) (id' : String) :
    (∃ k, 1 ≤ k ∧ k ≤ n ∧ id' = idText k) ↔
      id' = id ∨ ∃ k, 1 ≤ k ∧ k ≤ n ∧ id' = idText k := by
  refine (or_iff_right_of_imp ?_).symm
  rintro rfl
  exact (h.issued id').1 hid

/-- Every task moves by one stage at most, and those that are handed out by this are listed. -/
def Shifts (stage stage' : String → Stage) (handed : List String) : Prop :=
  ∀ id, (stage id).Moves (stage' id) ∧
    ((stage' id).isOut = true ↔ (stage id).isOut = true ∨ id ∈ handed)

/-- Tasks to which nothing happens make a `Shifts` that hands out none. -/
theorem Shifts.refl (stage : String → Stage) : Shifts stage stage [] :=
  fun _ => ⟨.refl _, by simp⟩

/-- One task that moves to its next stage, while the others stay, makes a `Shifts`. -/
theorem shifts_update {id : String} {st : Stage} {handed : List String} (h : (stage id).Next st)
    (hout : st.isOut = true ↔ (stage id).isOut = true ∨ id ∈ handed)
    (hhanded : ∀ id' ∈ handed, id' = id) : Shifts stage (Function.update stage id st) handed := by
  intro id'
  rcases eq_or_ne id' id with rfl | hne
  · rw [Function.update_self]
    exact ⟨.inr h, hout⟩
  · rw [Function.update_of_ne hne]
    exact ⟨.refl _, (or_iff_left fun hmem => hne (hhanded id' hmem)).symm⟩

/-! ### Operations -/

/-- The members after `insertScored` are the new one and the others. -/
theorem exists_mem_insertScored_iff {x : Scored} {member : Bytes} :
    (∃ y ∈ Store.insertScored x members, y.member = member) ↔
      x.member = member ∨ ∃ y ∈ members, y.member = member := by
  simp only [(Store.insertScored_perm x members).mem_iff, List.exists_mem_cons_iff]

/-- In a `Tidy` store the id of the next push was not given yet. -/
theorem Tidy.next_unissued (h : Tidy q s n members hash stage) :
    stage (idText (n + 1)) = .unissued := by
  by_contra hissued
  obtain ⟨k, -, hk, hid⟩ := (h.issued _).1 hissued
  have hnk := idText_injective hid
  omega

/-- The ids of one more push are those of the earlier ones and the `idText` of its number. -/
theorem given_succ_iff {id : String} :
    (∃ k, 1 ≤ k ∧ k ≤ n + 1 ∧ id = idText k) ↔
      id = idText (n + 1) ∨ ∃ k, 1 ≤ k ∧ k ≤ n ∧ id = idText k := by
  constructor
  · rintro ⟨k, hpos, hk, rfl⟩
    rcases eq_or_ne k (n + 1) with rfl | hkn
    · exact .inl rfl
    · exact .inr ⟨k, hpos, by omega, rfl⟩
  · rintro (rfl | ⟨k, hpos, hk, rfl⟩)
    · exact ⟨n + 1, by omega, by omega, rfl⟩
    · exact ⟨k, hpos, by omega, rfl⟩

/-- A push into a `Tidy` store queues a new task and leaves the stages of the others. -/
theorem Tidy.push (h : Tidy q s n members hash stage) (hn : n + 1 ≤ 2 ^ 53) (e : Envelope)
    (priority : Int64) :
    ∃ stage', Stands q (q.push e priority s).2 (n + 1) stage' ∧ Shifts stage stage' [] := by
  have hnew := h.next_unissued
  have hself := h.fits (idText (n + 1))
  rw [hnew] at hself
  obtain ⟨hempty, hlasts⟩ := hself
  have hpending := Pending.of_push (idText (n + 1)) e
  rw [← hempty] at hpending
  have hmembers := h.layout.zset?_push hn e priority
  have httl : ∀ id, Store.ttl (q.push e priority s).2 (q.taskKey id) =
      Store.ttl s (q.taskKey id) := fun id => ttl_push e priority (taskKey_ne_queueKey id)
  obtain ⟨s', members', hpush, hlayout, -⟩ := h.layout.push hn e priority
  obtain ⟨s'', hpush', hview⟩ := h.view.push hn e priority
  obtain rfl : s'' = s' := congrArg Prod.snd (hpush'.symm.trans hpush)
  rw [hpush'] at hmembers httl ⊢
  rw [← hlayout.members_eq hview.members] at hview
  refine ⟨_, ⟨members', _, h.of_task (.queued e.encode) hlayout hview (fun id _ => httl id)
    ⟨hpending.state, hpending.data, (httl _).trans hlasts⟩ (fun k hk => ?_) (fun k hk => ?_)
    (by simp) fun id => given_succ_iff⟩,
    shifts_update (hnew ▸ .push e) (by simp [hnew, Stage.isOut]) (by simp)⟩
  · rw [hlayout.members_eq hmembers, exists_mem_insertScored_iff]
    exact iff_of_true (.inl (congrArg memberText (idText_injective hk).symm)) ⟨_, rfl⟩
  · rw [hlayout.members_eq hmembers, exists_mem_insertScored_iff]
    exact or_iff_right fun hmember => hk (congrArg idText (memberText_injective hmember).symm)

/-- If `taken` says that a task cannot be read, it names the task that was taken. -/
theorem eq_of_taken_eq {id id' reason : String} {data : Option Bytes}
    (h : taken id data = .error (.corrupt id' reason)) : id' = id := by
  unfold taken at h
  split at h
  · cases h
    rfl
  · split at h
    · exact absurd h (by simp)
    · split at h
      · exact absurd h (by simp)
      · cases h
        rfl

/-- `take` hands out the first of the queued tasks of a `Tidy` store, if there is one. -/
theorem Tidy.take (h : Tidy q s n members hash stage) (client : RedisQueue) (now : Timestamp) :
    ∃ stage', Stands q (q.take s).2 n stage' ∧
      Shifts stage stage' (Served.consumed ⟨client, .pop now, .popped (q.take s).1⟩) ∧
      ∀ id reason, (q.take s).1 = .error (.corrupt id reason) →
        ∃ body, stage' id = .popped body := by
  have hmembers := h.layout.zset?_take
  have httl : ∀ id, Store.ttl (q.take s).2 (q.taskKey id) = Store.ttl s (q.taskKey id) :=
    fun id => ttl_take (taskKey_ne_queueKey id)
  obtain ⟨answer, s', members', htake, hlayout, -⟩ := h.layout.take client now
  rw [htake] at hmembers httl
  have htail := hlayout.members_eq hmembers
  cases members with
  | nil =>
    have hnil := h.view.take_nil
    rw [hnil]
    refine ⟨stage, ⟨_, _, h⟩, .refl _, ?_⟩
    intro id reason hcorrupt
    exact absurd hcorrupt (by simp)
  | cons x rest =>
    obtain ⟨k, -, hkn, hxk⟩ := h.layout.ids x List.mem_cons_self
    have hnumber : memberNumber? x.member = some k := by
      rw [hxk, memberNumber?_memberText (hkn.trans h.layout.few)]
    obtain ⟨s'', htake', hview⟩ := h.view.take_cons hnumber
    rw [htake] at htake'
    obtain ⟨rfl, rfl⟩ := Prod.mk.inj htake'
    rw [htail] at hlayout
    obtain ⟨body, hbody⟩ := (h.queued k).1 ⟨x, List.mem_cons_self, hxk⟩
    have hfits := h.fits (idText k)
    rw [hbody] at hfits
    obtain ⟨-, hdata, hlasts⟩ := hfits
    have hfresh := (List.nodup_cons.1 h.layout.distinct).1
    have hlook : ∀ name, textAt ((hash (idText k)).insertMany [field "state" "popped"]) name =
        if name = "state" then some "popped" else textAt (hash (idText k)) name := by
      intro name
      rw [textAt_insertMany_cons, textAt_insertMany_nil, textAt_insert]
    have hissued : stage (idText k) ≠ .unissued := by simp [hbody]
    have htidy : Tidy q s' n rest
        (Function.update hash (idText k) ((hash (idText k)).insertMany [field "state" "popped"]))
        (Function.update stage (idText k) (.popped body)) := by
      refine h.of_task (.popped body) hlayout hview (fun id _ => httl id)
        ⟨hlook "state", (hlook "data").trans hdata, (httl _).trans hlasts⟩ (fun j hj => ?_)
        (fun j hj => ?_) (by simp) (h.given_iff hissued)
      · refine iff_of_false ?_ (by simp)
        rintro ⟨y, hy, hyj⟩
        rw [idText_injective hj, ← hxk] at hyj
        exact hfresh (List.mem_map.2 ⟨y, hy, hyj⟩)
      · rw [List.exists_mem_cons_iff, hxk]
        exact (or_iff_right fun hkj => hj (congrArg idText (memberText_injective hkj).symm)).symm
    rw [htake]
    refine ⟨_, ⟨rest, _, htidy⟩, ?_, fun id reason hcorrupt => ?_⟩
    · rw [consumed_taken (h.isText (idText k))]
      exact shifts_update (hbody ▸ .pop body) (by simp [Stage.isOut]) (by simp)
    · rw [eq_of_taken_eq hcorrupt, Function.update_self]
      exact ⟨body, rfl⟩

/-- A report ends a task of a `Tidy` store that was handed out. -/
theorem Tidy.report (h : Tidy q s n members hash stage) {r : TaskReport}
    (hout : (stage r.id).isOut = true) {now : Timestamp}
    (httl : q.ttlSecs ≤ Store.maxTtl now.millis) :
    ∃ stage', Stands q (q.report r now s).2 n stage' ∧ Shifts stage stage' [] := by
  have hlayout := h.layout.report r now
  obtain ⟨answer, s', hreport, hkept, hview⟩ := h.view.report r now
  have hok : (q.report r now s).1 = .ok () := by
    rw [hreport]
    exact hkept.eq_ok httl
  have hlasts : ∀ key, Store.ttl (q.report r now s).2 key =
      if key = q.taskKey r.id then some q.ttlSecs else Store.ttl s key := fun key => ttl_report hok
  rw [hreport] at hlayout hlasts ⊢
  have hissued : stage r.id ≠ .unissued := fun hstage => by simp [hstage, Stage.isOut] at hout
  have hqueued : ∀ body, stage r.id ≠ .queued body :=
    fun body hstage => by simp [hstage, Stage.isOut] at hout
  have hnext : (stage r.id).Next (.finished true r.status) := by
    cases hstage : stage r.id with
    | popped body => exact .report body r.status
    | finished out status =>
      rw [hstage] at hout
      obtain rfl : out = true := hout
      exact .reportAgain status r.status
    | expired out =>
      rw [hstage] at hout
      obtain rfl : out = true := hout
      exact .reportLate r.status
    | _ =>
      rw [hstage] at hout
      exact absurd hout Bool.false_ne_true
  have hstate : textAt ((hash r.id).insertMany (reportedFields (r.toRecord now))) "state" =
      some r.status.name := by
    simp [textAt_reportedFields]
  have hfinished : textAt ((hash r.id).insertMany (reportedFields (r.toRecord now))) "finished_at" =
      some now.toOffsetText := by
    simp [textAt_reportedFields]
  refine ⟨_, ⟨members, _, h.of_task (.finished true r.status) hlayout hview (fun id hne => ?_)
    ⟨hstate, ?_, ?_⟩ (fun k hk => ?_) (fun k _ => .rfl) (by simp) (h.given_iff hissued)⟩,
    shifts_update hnext (iff_of_true rfl (.inl hout)) (by simp)⟩
  · rw [hlasts, if_neg (taskKey_injective.ne hne)]
  · rw [hfinished]
    rfl
  · rw [hlasts, if_pos rfl]
    rfl
  · rw [h.queued, hk]
    exact iff_of_false (fun ⟨body, hbody⟩ => hqueued body hbody) (by simp)

/-- A cancelation ends a task of a `Tidy` store that is queued, and leaves any other task that was
pushed alone. -/
theorem Tidy.cancel (h : Tidy q s n members hash stage) {id : String}
    (hissued : stage id ≠ .unissued) {now : Timestamp}
    (httl : q.ttlSecs ≤ Store.maxTtl now.millis) :
    ∃ stage', Stands q (q.cancel id now s).2 n stage' ∧ Shifts stage stage' [] := by
  obtain ⟨k, -, hkn, rfl⟩ := (h.issued id).1 hissued
  have hread : scriptRead? (idText k).toList = some k := scriptRead?_idText (hkn.trans h.layout.few)
  by_cases hthere : ∃ x ∈ members, x.member = memberText k
  · have hnamed : named (idText k) = some (idText k) := by
      unfold named
      rw [hread]
      rfl
    obtain ⟨body, hbody⟩ := (h.queued k).1 hthere
    obtain ⟨answer, s', hcancel, hkept, hview⟩ := h.view.cancel_found hread hthere now
    obtain ⟨answer', s'', members', hcancel', -, hlayout, -⟩ :=
      h.layout.cancel_found hnamed (h.layout.mem_idsOf_iff.2 hthere) now
    obtain rfl : s' = s'' := congrArg Prod.snd (hcancel.symm.trans hcancel')
    rw [hlayout.members_eq hview.members] at hlayout
    have hok : (q.cancel (idText k) now s).1 = .ok () := by
      rw [hcancel]
      exact hkept.eq_ok httl
    have hlasts := fun id => ttl_cancel hok (taskKey_ne_queueKey id)
    rw [hcancel] at hlasts ⊢
    have hfinished : textAt ((hash (idText k)).insertMany (canceledFields now)) "finished_at" =
        some now.toOffsetText := by
      simp [textAt_canceledFields]
    refine ⟨_, ⟨_, _, h.of_task (.finished false .canceled) hlayout hview (fun id hne => ?_)
      ⟨?_, ?_, ?_⟩ (fun j hj => ?_) (fun j hj => ?_) (by simp) (h.given_iff hissued)⟩,
      shifts_update (hbody ▸ .cancel body) (by simp [hbody, Stage.isOut]) (by simp)⟩
    · rw [hlasts, if_neg (taskKey_injective.ne hne)]
    · simp [textAt_canceledFields, ReportStatus.name]
    · rw [hfinished]
      rfl
    · rw [hlasts, if_pos rfl]
      rfl
    · refine iff_of_false ?_ (by simp)
      rintro ⟨y, hy, hyj⟩
      rw [idText_injective hj] at hyj
      exact absurd hyj (of_decide_eq_true (List.mem_filter.1 hy).2)
    · refine exists_congr fun y => and_congr_left fun hyj => ?_
      have hne : y.member ≠ memberText k := by
        rw [hyj]
        exact memberText_injective.ne fun hjk => hj (congrArg idText hjk)
      rw [List.mem_filter]
      exact and_iff_left (decide_eq_true hne)
  · have hnone : ∀ j, scriptRead? (idText k).toList = some j →
        ∀ x ∈ members, x.member ≠ memberText j := by
      intro j hj x hx hxj
      obtain rfl : k = j := Option.some.inj (hread.symm.trans hj)
      exact hthere ⟨x, hx, hxj⟩
    rw [h.view.cancel_notFound hnone]
    exact ⟨stage, ⟨_, _, h⟩, .refl _⟩

/-- When a key of a `Tidy` store lapses, nothing but the record of a task expires. -/
theorem Tidy.lapse (h : Tidy q s n members hash stage) (key : Bytes) :
    ∃ stage', Stands q (s.lapse key) n stage' ∧ Shifts stage stage' [] := by
  cases hkey : Store.ttl s key with
  | none =>
    rw [Store.lapse_eq_self hkey]
    exact ⟨stage, ⟨_, _, h⟩, .refl _⟩
  | some secs =>
    have hlayout := h.layout.lapse key
    obtain ⟨hash', hview, -⟩ := h.view.lapse key
    have hother : ∀ id, q.taskKey id ≠ key → (s.lapse key).get? (q.taskKey id) =
        s.get? (q.taskKey id) := fun id hne => Store.get?_lapse_of_ne hne
    have hsame : ∀ id, q.taskKey id ≠ key → hash' id = hash id := by
      intro id hne
      have hhash := Store.hash?_congr (hother id hne)
      rw [hview.hashes, h.view.hashes] at hhash
      exact Except.ok.inj hhash
    by_cases htask : ∃ id, q.taskKey id = key
    · obtain ⟨id, rfl⟩ := htask
      have hexpires : (Store.ttl s (q.taskKey id)).isSome := by rw [hkey]; rfl
      obtain ⟨out, status, hstatus⟩ := (h.fits id).ttl_isSome_iff.1 hexpires
      have hgone := Store.get?_lapse_self hexpires
      have hhash : hash' = Function.update hash id .empty := by
        funext id'
        rcases eq_or_ne id' id with rfl | hne
        · have hempty := hview.hashes id'
          unfold Store.hash? at hempty
          rw [hgone] at hempty
          rw [Function.update_self]
          exact (Except.ok.inj hempty).symm
        · rw [Function.update_of_ne hne]
          exact hsame id' (taskKey_injective.ne hne)
      have hlasts : Store.ttl (s.lapse (q.taskKey id)) (q.taskKey id) = none := by
        unfold Store.ttl
        rw [hgone]
        rfl
      have hissued : stage id ≠ .unissued := by simp [hstatus]
      rw [hhash] at hview
      refine ⟨_, ⟨_, _, h.of_task (.expired out) hlayout hview (fun id' hne => ?_) ⟨rfl, hlasts⟩
        (fun k hk => ?_) (fun k _ => .rfl) (by simp) (h.given_iff hissued)⟩,
        shifts_update (hstatus ▸ .expire out status) (by simp [hstatus, Stage.isOut]) (by simp)⟩
      · exact Store.ttl_congr (hother id' (taskKey_injective.ne hne))
      · rw [h.queued, hk, hstatus]
        exact iff_of_false (by simp) (by simp)
    · have hall : ∀ id, q.taskKey id ≠ key := fun id hid => htask ⟨id, hid⟩
      have hhash : hash' = hash := funext fun id => hsame id (hall id)
      rw [hhash] at hview
      refine ⟨stage, ⟨members, hash, hlayout, hview, fun id => ?_, h.queued, h.issued⟩,
        .refl _⟩
      rw [Store.ttl_congr (hother id (hall id))]
      exact h.fits id

/-! ### Events -/

/-- The first half of an event: a `pop` takes a task, and reports it afterwards if it cannot be
read.  Other events are not divided. -/
def Event.firstHalf : Event → Event
  | call client (.pop now) => take client now
  | e => e

/-- Every task moves by one stage at most, and then perhaps by one more.  Those that are handed out
are so by the first move. -/
def Advances (q : RedisQueue) (n : Nat) (stage : String → Stage) (s₁ s₂ : Store)
    (handed : List String) : Prop :=
  ∃ stage₁ stage₂, Stands q s₁ n stage₁ ∧ Stands q s₂ n stage₂ ∧
    Shifts stage stage₁ handed ∧ Shifts stage₁ stage₂ []

/-- A change that is not divided `Advances` the tasks as the first half of itself. -/
theorem Advances.of_whole {handed : List String}
    (h : ∃ stage', Stands q s' n stage' ∧ Shifts stage stage' handed) :
    Advances q n stage s' s' handed := by
  obtain ⟨stage', hstands, hshifts⟩ := h
  exact ⟨stage', stage', hstands, hstands, hshifts, .refl _⟩

/-- A change that `Advances` the tasks for one client does so for all clients with its prefix. -/
theorem Advances.of_keyPrefix {s₁ s₂ : Store} {handed : List String}
    (h : Advances q n stage s₁ s₂ handed)
    (hclient : client.config.keyPrefix = q.config.keyPrefix) :
    Advances client n stage s₁ s₂ handed := by
  obtain ⟨stage₁, stage₂, h₁, h₂, hshifts⟩ := h
  exact ⟨stage₁, stage₂, h₁.of_keyPrefix hclient, h₂.of_keyPrefix hclient, hshifts⟩

/-- `pop` answers what its first half `take` does. -/
theorem pop_fst (q : RedisQueue) (now : Timestamp) (s : Store) :
    (q.pop now s).1 = (q.take s).1 := by
  rw [pop_eq]
  split
  next id reason s₁ htake => rw [htake]
  next => rfl

/-- A `pop` from a `Tidy` store advances the tasks: it takes one, and reports it when it cannot be
read. -/
theorem Tidy.pop (h : Tidy q s n members hash stage) (client : RedisQueue) {now : Timestamp}
    (httl : q.ttlSecs ≤ Store.maxTtl now.millis) :
    Advances q n stage (q.take s).2 (q.pop now s).2
      (Served.consumed ⟨client, .pop now, .popped (q.pop now s).1⟩) := by
  obtain ⟨stage₁, htaken, hshifts, hcorrupt⟩ := h.take client now
  rw [pop_fst, pop_eq]
  split
  next id reason s₁ htake =>
    rw [htake] at htaken hcorrupt hshifts ⊢
    obtain ⟨members', hash', htidy⟩ := htaken
    obtain ⟨body, hbody⟩ := hcorrupt id reason rfl
    have hout : (stage₁ id).isOut = true := by rw [hbody]; rfl
    obtain ⟨stage₂, hreported, hshifts'⟩ :=
      htidy.report (r := corruptReport id reason) hout httl
    exact ⟨stage₁, stage₂, ⟨_, _, htidy⟩, hreported, hshifts, hshifts'⟩
  next => exact .of_whole ⟨stage₁, htaken, hshifts⟩

/-- What is asked of an event: its client has the prefix of the queue and a time to live that is
accepted, cancels an id that was given, and reports a task that was handed out. -/
structure Event.IsAllowed (q : RedisQueue) (stage : String → Stage) (e : Event) : Prop where
  /-- All clients share a prefix. -/
  client : ∀ client, e.client? = some client → client.config.keyPrefix = q.config.keyPrefix
  /-- A time to live that is set is accepted. -/
  ttl : ∀ client c, e = .call client c → ¬ client.TtlRefused c
  /-- An id that is canceled was given. -/
  cancel : ∀ client id now, e = .call client (.cancel id now) → stage id ≠ .unissued
  /-- A task that is reported was handed out. -/
  report : ∀ client r now, e = .call client (.report r now) → (stage r.id).isOut = true

/-- Every event that `IsAllowed` advances the tasks of a `Tidy` store. -/
theorem Tidy.step (h : Tidy q s n members hash stage) {e : Event} (he : e.IsAllowed q stage)
    (hn : n + e.pushes ≤ 2 ^ 53) :
    Advances q (n + e.pushes) stage (e.firstHalf.step s).2 (e.step s).2
      (consumedIds (e.step s).1) := by
  have hsame : Advances q n stage s s [] := .of_whole ⟨stage, ⟨_, _, h⟩, .refl _⟩
  cases e with
  | take client now =>
    have hkeys := he.client client rfl
    obtain ⟨stage', htaken, hshifts, -⟩ := (h.of_keyPrefix hkeys).take client now
    have hids : consumedIds (Event.step s (.take client now)).1 =
        Served.consumed ⟨client, .pop now, .popped (client.take s).1⟩ := List.append_nil _
    rw [hids]
    exact .of_whole ⟨stage', htaken.of_keyPrefix hkeys.symm, hshifts⟩
  | lapse key => exact .of_whole (h.lapse key)
  | call client c =>
    have hkeys := he.client client rfl
    have httl := he.ttl client c rfl
    have hc := h.of_keyPrefix hkeys
    cases c with
    | push e priority =>
      exact (Advances.of_whole (hc.push hn e priority)).of_keyPrefix hkeys.symm
    | pop now =>
      have hids : consumedIds (Event.step s (.call client (.pop now))).1 =
          Served.consumed ⟨client, .pop now, .popped (client.pop now s).1⟩ := List.append_nil _
      rw [hids]
      exact (hc.pop client (Nat.le_of_not_lt httl)).of_keyPrefix hkeys.symm
    | cancel id now =>
      have hissued := he.cancel client id now rfl
      exact (Advances.of_whole (hc.cancel hissued (Nat.le_of_not_lt httl))).of_keyPrefix hkeys.symm
    | report r now =>
      have hout := he.report client r now rfl
      exact (Advances.of_whole (hc.report hout (Nat.le_of_not_lt httl))).of_keyPrefix hkeys.symm
    | get id now => exact hsame
    | len => exact hsame
    | isEmpty => exact hsame

end TaskScheduler.RedisQueue
