import TaskScheduler.Proofs.Scheduler.Turns

/-!
# The books of a scheduler

A scheduler keeps several books: the counters, the metrics, and the reports that it handed to the
queue.  They are written one after the other, so between two of them a task has an open `Entry`: its
worker has raised the counter of running tasks and not the gauge, or both, or has lowered the
counter again and not the gauge; or its report has been recorded and not handed over.

`Books.Step` lists what a move does to the books and to the open entries, and `booksStep_move` says
that every move does one of these.
-/

namespace TaskScheduler

variable {β η : Type}

/-! ### Books and entries -/

/-- What a task has written into some books and not into others. -/
inductive Entry where
  /-- It is counted as running by the counter only. -/
  | counted
  /-- It is counted as running by counter and gauge. -/
  | executing
  /-- It is counted as running by the gauge only. -/
  | gauged
  /-- Its report has been recorded and not handed over. -/
  | due (report : TaskReport)

/-- Whether the counter of running tasks counts a task with this entry. -/
def Entry.isCounted : Entry → Bool
  | counted | executing => true
  | _ => false

/-- Whether the gauge of running tasks counts a task with this entry. -/
def Entry.isGauged : Entry → Bool
  | executing | gauged => true
  | _ => false

/-- The report that is to be handed over. -/
def Entry.report? : Entry → Option TaskReport
  | due report => some report
  | _ => none

/-- The open entry of a task in a phase. -/
def Phase.entry? : Phase η → Option Entry
  | .starting _ true => some .counted
  | .started _ | .running _ _ | .stopping _ | .finishing _ true => some .executing
  | .finishing _ false => some .gauged
  | .reporting report => some (.due report)
  | _ => none

/-- The open entries of tasks. -/
def entries (tasks : List (Task η)) : List Entry := tasks.filterMap fun t => t.phase.entry?

/-- What a scheduler has counted, measured and handed over, except for the depth of the buffer. -/
structure Books where
  /-- The counters. -/
  counters : Counters
  /-- The metrics, if they are wanted. -/
  metrics : Option Metrics
  /-- The reports. -/
  reports : List (TaskRef × TaskReport)

/-- The books of a scheduler. -/
def Scheduler.books (s : Scheduler β η) : Books :=
  ⟨s.counters, s.metrics.map fun m => { m with depth := 0 }, s.reports⟩

/-- What a move does to the books and to the open entries. -/
inductive Books.Step (b : Books) (open₀ : List Entry) : Books → List Entry → Prop
  /-- Nothing. -/
  | quiet {open₁ : List Entry} (h : open₁.Perm open₀) : Step b open₀ b open₁
  /-- The counter of running tasks is raised. -/
  | countStart {open₁ : List Entry} (h : open₁.Perm (.counted :: open₀)) :
    Step b open₀ ⟨b.counters.started, b.metrics, b.reports⟩ open₁
  /-- The gauge of running tasks is raised. -/
  | gaugeStart {rest open₁ : List Entry} (h₀ : open₀.Perm (.counted :: rest))
    (h₁ : open₁.Perm (.executing :: rest)) :
    Step b open₀ ⟨b.counters, b.metrics.map Metrics.started, b.reports⟩ open₁
  /-- The counter of running tasks is lowered. -/
  | countStop {rest open₁ : List Entry} (h₀ : open₀.Perm (.executing :: rest))
    (h₁ : open₁.Perm (.gauged :: rest)) :
    Step b open₀ ⟨b.counters.stopped, b.metrics, b.reports⟩ open₁
  /-- The gauge of running tasks is lowered. -/
  | gaugeStop {open₁ : List Entry} (h : open₀.Perm (.gauged :: open₁)) :
    Step b open₀ ⟨b.counters, b.metrics.map Metrics.stopped, b.reports⟩ open₁
  /-- A report is recorded. -/
  | record {open₁ : List Entry} (r : TaskReport) (h : open₁.Perm (.due r :: open₀)) :
    Step b open₀ ⟨b.counters.record r,
      b.metrics.map fun m => m.recordFinished r.taskType r.status r.duration, b.reports⟩ open₁
  /-- A report is handed over. -/
  | report {open₁ : List Entry} (r : TaskRef) (report : TaskReport)
    (h : open₀.Perm (.due report :: open₁)) :
    Step b open₀ ⟨b.counters, b.metrics, b.reports ++ [(r, report)]⟩ open₁

/-- The order of the entries does not matter to `Books.Step`. -/
theorem Books.Step.congr {b b' : Books} {open₀ open₁ all₀ all₁ : List Entry}
    (h : Books.Step b open₀ b' open₁) (h₀ : all₀.Perm open₀) (h₁ : all₁.Perm open₁) :
    Books.Step b all₀ b' all₁ := by
  cases h with
  | quiet h => exact .quiet (h₁.trans (h.trans h₀.symm))
  | countStart h => exact .countStart (h₁.trans (h.trans (h₀.symm.cons _)))
  | gaugeStart hold hnew => exact .gaugeStart (h₀.trans hold) (h₁.trans hnew)
  | countStop hold hnew => exact .countStop (h₀.trans hold) (h₁.trans hnew)
  | gaugeStop h => exact .gaugeStop (h₀.trans (h.trans (h₁.symm.cons _)))
  | record r h => exact .record r (h₁.trans (h.trans (h₀.symm.cons _)))
  | report r report h => exact .report r report (h₀.trans (h.trans (h₁.symm.cons _)))

/-! ### Entries of lists of tasks -/

/-- What is collected from a list is a matter of what its places hold. -/
theorem filterMap_eq_of_getElem? {α γ : Type} {f : α → Option γ} {l l' : List α}
    (h : ∀ i : Nat, l[i]?.bind f = l'[i]?.bind f) : l.filterMap f = l'.filterMap f := by
  induction l generalizing l' with
  | nil =>
    refine (List.filterMap_eq_nil_iff.2 fun a ha => ?_).symm
    obtain ⟨i, hi⟩ := List.mem_iff_getElem?.1 ha
    have hsame := h i
    rw [hi] at hsame
    exact hsame.symm
  | cons a l ih =>
    cases l' with
    | nil =>
      refine List.filterMap_eq_nil_iff.2 fun b hb => ?_
      obtain ⟨i, hi⟩ := List.mem_iff_getElem?.1 hb
      have hsame := h i
      rw [hi] at hsame
      exact hsame
    | cons a' l' =>
      have hhead : f a = f a' := h 0
      have htail : l.filterMap f = l'.filterMap f := ih fun i => h (i + 1)
      rw [List.filterMap_cons, List.filterMap_cons, hhead, htail]

/-- A change of one task takes its entry out and puts the new one in. -/
theorem exists_entries_modify {tasks : List (Task η)} {r : TaskRef} {t : Task η}
    (ht : tasks[r]? = some t) (f : Task η → Task η) :
    ∃ rest, (entries tasks).Perm (t.phase.entry?.toList ++ rest) ∧
      (entries (tasks.modify r f)).Perm ((f t).phase.entry?.toList ++ rest) := by
  obtain ⟨hlt, hget⟩ := List.getElem?_eq_some_iff.1 ht
  obtain ⟨before, u, after, hsplit, hlength, hmodify⟩ := List.exists_of_modify f hlt
  have hu : u = t := by
    rw [hsplit, List.getElem?_append_right (by omega), hlength, Nat.sub_self] at ht
    exact Option.some.inj ht
  subst hu
  have hcollect : ∀ v : Task η, (entries (before ++ v :: after)).Perm
      (v.phase.entry?.toList ++ (entries before ++ entries after)) := by
    intro v
    unfold entries
    rw [List.filterMap_append, List.filterMap_cons]
    cases v.phase.entry? with
    | none => exact .refl _
    | some e => exact List.perm_middle
  refine ⟨entries before ++ entries after, ?_, ?_⟩
  · rw [hsplit]
    exact hcollect u
  · rw [hmodify]
    exact hcollect (f u)

namespace Scheduler

variable {s s' : Scheduler β η} {m : Move η} {r : TaskRef}

/-! ### Moves that leave the entries alone -/

/-- A move may write an entry for the task in a place: its worker may raise or lower the counter or
the gauge of running tasks, or its report may be recorded or handed over. -/
def MayWrite (m : Move η) (r : TaskRef) (t : Task η) : Prop :=
  match t.phase with
  | .starting _ _ | .finishing _ _ | .completing _ => m = .event (.stepTask r)
  | .reporting _ => ∃ wall, m = .event (.report r wall)
  | _ => False

/-- Whether a move may write an entry for any task. -/
def writes : Move η → Bool
  | .event (.stepTask _) | .event (.report _ _) => true
  | _ => false

/-- Every move that may write an entry of the books is one of which `writes` holds. -/
theorem MayWrite.writes {t : Task η} (h : MayWrite m r t) : writes m = true := by
  unfold MayWrite at h
  split at h
  · rw [h, Scheduler.writes]
  · rw [h, Scheduler.writes]
  · rw [h, Scheduler.writes]
  · obtain ⟨wall, hm⟩ := h
    rw [hm, Scheduler.writes]
  · exact h.elim

/-- A step of a task writes an entry for this task only. -/
theorem MayWrite.eq {r' : TaskRef} {t : Task η}
    (h : MayWrite (.event (.stepTask r)) r' t) : r' = r := by
  unfold MayWrite at h
  split at h
  · cases h
    rfl
  · cases h
    rfl
  · cases h
    rfl
  · obtain ⟨wall, hm⟩ := h
    cases hm
  · exact h.elim

/-- A turn that `MayWrite` no entry leaves the entry of its task. -/
theorem entry?_eq_of_turn {t t' : Task η} (h : Task.Turn s m r t t') (hm : ¬ MayWrite m r t) :
    t'.phase.entry? = t.phase.entry? := by
  unfold MayWrite at hm
  cases h with
  | countStart hp hstep | gaugeStart hp hstep | countStop hp hstep | gaugeStop hp hstep
  | record hp hstep =>
    rw [hp] at hm
    exact absurd hstep hm
  | report hp hstep =>
    rw [hp] at hm
    exact absurd ⟨_, hstep⟩ hm
  | @leave top callers hp o => cases callers <;> exact (congrArg Phase.entry? hp).symm
  | same | cancel hm hs | mark hm hs | drop hm hs => rfl
  | arm hm hp => exact (congrArg Phase.entry? hp).symm
  | enroll hp | reject hp | take hp | spawn hp | skip hp | start hp | refuse hp | lookUp hp
  | lack hp | enter hp | returned hp | broke hp | called hp | stop hp | release hp =>
    exact (congrArg Phase.entry? hp).symm

/-- A move that `MayWrite` no entry leaves the `entries` as they are. -/
theorem entries_eq_of_turns (h : Turns s m s')
    (hm : ∀ r t, s.task? r = some t → ¬ MayWrite m r t) : entries s'.tasks = entries s.tasks := by
  refine filterMap_eq_of_getElem? fun r => ?_
  change (s'.task? r).bind _ = (s.task? r).bind _
  cases ht : s.task? r with
  | some t =>
    obtain ⟨t', ht', hturn⟩ := h.old r t ht
    rw [ht']
    exact entry?_eq_of_turn hturn (hm r t ht)
  | none =>
    cases ht' : s'.task? r with
    | none => rfl
    | some t' =>
      obtain ⟨p, rfl⟩ := h.new r t' ht ht'
      rfl

/-! ### Functions that leave the books alone -/

/-- The depth of the buffer is not in the `books`. -/
theorem books_measure_setDepth (s : Scheduler β η) (n : Nat) :
    (s.measure fun m => m.setDepth n).books = s.books := by
  unfold books measure
  cases s.metrics <;> rfl

/-- `callRun` leaves the books alone. -/
theorem books_callRun (s : Scheduler β η) : s.callRun.books = s.books := by
  unfold callRun
  split
  · rfl
  · split <;> rfl

/-- `answerPing` leaves the books alone. -/
theorem books_answerPing (s : Scheduler β η) (i : Nat) (answer : Except QueueError Unit) :
    (s.answerPing i answer).books = s.books := by
  unfold answerPing
  split
  · split
    · rfl
    · split <;> rfl
  · rfl

/-- `popQueue` leaves the books alone. -/
theorem books_popQueue [TaskQueue β] (s : Scheduler β η) (i : Nat) (wall : Timestamp) :
    (s.popQueue i wall).books = s.books := by
  unfold popQueue answerPop
  split
  · split
    · dsimp only
      split
      · split
        · split <;> rfl
        · rfl
      · rfl
    · rfl
  · rfl

/-- `takeIn` leaves the books alone. -/
theorem books_takeIn (s : Scheduler β η) (i : Nat) (l : Loops) (r : TaskRef) :
    (s.takeIn i l r).books = s.books := by
  unfold takeIn
  split
  · rfl
  · split <;> rfl

/-- `dispatchTask` leaves the books alone. -/
theorem books_dispatchTask (s : Scheduler β η) (r : TaskRef) :
    (s.dispatchTask r).2.books = s.books := by
  unfold dispatchTask
  split
  · rfl
  · split <;> rfl

/-- `stepPop` leaves the books alone. -/
theorem books_stepPop (s : Scheduler β η) (i : Nat) : (s.stepPop i).books = s.books := by
  have hdispatch := fun r => s.books_dispatchTask r
  unfold stepPop
  split
  · rfl
  · split
    · rfl
    · rfl
    · exact s.books_takeIn i _ _
    · split <;> rfl
    · split
      · rfl
      · split
        · exact books_measure_setDepth _ _
        · rfl
    · split
      next heq => exact (congrArg (fun x => x.2.books) heq).symm.trans (hdispatch _)
      next heq => exact (congrArg (fun x => x.2.books) heq).symm.trans (hdispatch _)
    · split <;> rfl
    · split <;> rfl
    · rfl

/-- `stepDispatch` leaves the books alone. -/
theorem books_stepDispatch (s : Scheduler β η) (i : Nat) : (s.stepDispatch i).books = s.books := by
  have hdispatch := fun r => s.books_dispatchTask r
  unfold stepDispatch
  split
  · rfl
  · split
    · split
      · rfl
      · split
        · rfl
        · exact books_measure_setDepth _ _
    · split
      next heq => exact (congrArg (fun x => x.2.books) heq).symm.trans (hdispatch _)
      next heq => exact (congrArg (fun x => x.2.books) heq).symm.trans (hdispatch _)
    · split <;> rfl
    · split <;> rfl
    · split
      · exact books_measure_setDepth _ _
      · rfl
    · split <;> rfl
    · split <;> rfl

/-- `releaseTask` leaves the books alone. -/
theorem books_releaseTask (s : Scheduler β η) (r : TaskRef) :
    (s.releaseTask r).2.books = s.books := by
  unfold releaseTask
  split
  · rfl
  next t _ =>
    split
    · rfl
    · dsimp only
      cases t.registered <;> cases t.token <;> rfl

/-- `cancelTask` leaves the books alone. -/
theorem books_cancelTask (s : Scheduler β η) (r : TaskRef) : (s.cancelTask r).books = s.books := by
  unfold cancelTask
  split
  · rfl
  · split
    · rfl
    · exact books_releaseTask _ r

/-- `dropCanceled` leaves the books alone. -/
theorem books_dropCanceled (s : Scheduler β η) (r : TaskRef) :
    (s.dropCanceled r).books = s.books := by
  unfold dropCanceled
  split
  · exact s.books_releaseTask r
  · rfl

/-- `cancel` leaves the books alone. -/
theorem books_cancel [TaskQueue β] (s : Scheduler β η) (id : String) (wall : Timestamp) :
    (s.cancel id wall).2.books = s.books := by
  unfold cancel
  split
  · dsimp only
    split <;> exact s.books_cancelTask _
  · rfl

/-- `push` leaves the books alone. -/
theorem books_push [TaskQueue β] (s : Scheduler β η) (taskType : String) (data : Json)
    (timeout : Option Duration) (priority : Option Int64) :
    (s.push taskType data timeout priority).2.books = s.books := by
  unfold push
  split <;> rfl

/-- `armWorker` leaves the books alone. -/
theorem books_armWorker (s : Scheduler β η) (r : TaskRef) : (s.armWorker r).books = s.books := by
  unfold armWorker
  split
  · split
    · unfold armTask
      dsimp only
      split
      · rfl
      · split
        · rfl
        · split <;> rfl
    · rfl
  · rfl

/-- `startWorker` leaves the books alone. -/
theorem books_startWorker (s : Scheduler β η) (r : TaskRef) :
    (s.startWorker r).books = s.books := by
  unfold startWorker startTask
  split
  next t ht =>
    split
    · rw [ht]
      dsimp only
      by_cases hs : t.status = .init
      · rw [if_pos hs]
        rfl
      · rw [if_neg hs]
        rfl
    · rfl
  · rfl

/-- `lookUpPipeline` leaves the books alone. -/
theorem books_lookUpPipeline (s : Scheduler β η) (r : TaskRef) :
    (s.lookUpPipeline r).books = s.books := by
  unfold lookUpPipeline
  split
  · split
    · split <;> rfl
    · rfl
  · rfl

/-- `enterStage` leaves the books alone. -/
theorem books_enterStage (s : Scheduler β η) (r : TaskRef) : (s.enterStage r).books = s.books := by
  unfold enterStage
  split
  · split
    · split
      · rfl
      · split <;> rfl
    · rfl
  · rfl

/-- `returnFromStage` leaves the books alone. -/
theorem books_returnFromStage (s : Scheduler β η) (r : TaskRef) (o : Outcome) :
    (s.returnFromStage r o).books = s.books := by
  unfold returnFromStage
  split
  · split
    · split <;> rfl
    · rfl
  · rfl

/-- `breakOff` leaves the books alone. -/
theorem books_breakOff (s : Scheduler β η) (r : TaskRef) (p : Payload) :
    (s.breakOff r p).books = s.books := by
  unfold breakOff
  split
  · split <;> rfl
  · rfl

/-- `callPipeline` leaves the books alone. -/
theorem books_callPipeline (s : Scheduler β η) (r : TaskRef) (c : Context) (taskType : String)
    (input : StageInput) : (s.callPipeline r c taskType input).books = s.books := by
  unfold callPipeline
  split
  · split
    · split <;> rfl
    · rfl
  · rfl

/-- `stopWorker` leaves the books alone. -/
theorem books_stopWorker (s : Scheduler β η) (r : TaskRef) : (s.stopWorker r).books = s.books := by
  unfold stopWorker
  split
  · split <;> rfl
  · rfl

/-- `endTask` leaves the books alone. -/
theorem books_endTask (s : Scheduler β η) (r : TaskRef) : (s.endTask r).books = s.books := by
  unfold endTask
  split
  · split
    · exact s.books_releaseTask r
    · rfl
  · rfl

/-! ### Moves that write an entry -/

/-- A move does one of the steps of the books. -/
def BooksStep (s s' : Scheduler β η) : Prop :=
  Books.Step s.books (entries s.tasks) s'.books (entries s'.tasks)

/-- What leaves `books` and `entries` alone is a quiet `BooksStep`. -/
theorem booksStep_of_eq (hbooks : s'.books = s.books)
    (hentries : entries s'.tasks = entries s.tasks) : BooksStep s s' := by
  unfold BooksStep
  rw [hbooks, hentries]
  exact .quiet (.refl _)

/-- If what becomes of the entry of one task is a step of the books, it is a `BooksStep` of the
scheduler. -/
theorem booksStep_of_modify {t : Task η} {f : Task η → Task η} (ht : s.task? r = some t)
    (htasks : s'.tasks = s.tasks.modify r f)
    (h : ∀ rest, Books.Step s.books (t.phase.entry?.toList ++ rest) s'.books
      ((f t).phase.entry?.toList ++ rest)) : BooksStep s s' := by
  obtain ⟨rest, hold, hnew⟩ := exists_entries_modify ht f
  rw [← htasks] at hnew
  exact (h rest).congr hold hnew

/-- `measure` changes the metrics in the books, if the depth of the buffer has no part in it. -/
theorem books_measure (s : Scheduler β η) {f : Metrics → Metrics}
    (hf : ∀ m : Metrics, { f m with depth := 0 } = f { m with depth := 0 }) :
    (s.measure f).books = ⟨s.books.counters, s.books.metrics.map f, s.books.reports⟩ := by
  unfold books measure
  dsimp only
  cases s.metrics with
  | none => rfl
  | some m => exact congrArg (Books.mk s.counters · s.reports) (congrArg some (hf m))

/-- `countStart` raises the counter, and then the gauge. -/
theorem booksStep_countStart (s : Scheduler β η) (r : TaskRef) : BooksStep s (s.countStart r) := by
  unfold countStart
  split
  next t ht =>
    split
    next c hp =>
      refine booksStep_of_modify ht rfl fun rest => ?_
      rw [hp]
      exact .countStart (.refl _)
    next c hp =>
      refine booksStep_of_modify ht rfl fun rest => ?_
      change Books.Step _ _ (s.measure Metrics.started).books _
      rw [hp, books_measure s fun _ => rfl]
      exact .gaugeStart (.refl _) (.refl _)
    next => exact booksStep_of_eq rfl rfl
  next => exact booksStep_of_eq rfl rfl

/-- `countStop` lowers the counter, and then the gauge. -/
theorem booksStep_countStop (s : Scheduler β η) (r : TaskRef) : BooksStep s (s.countStop r) := by
  unfold countStop
  split
  next t ht =>
    split
    next o hp =>
      refine booksStep_of_modify ht rfl fun rest => ?_
      rw [hp]
      exact .countStop (.refl _) (.refl _)
    next o hp =>
      refine booksStep_of_modify ht rfl fun rest => ?_
      change Books.Step _ _ (s.measure Metrics.stopped).books _
      rw [hp, books_measure s fun _ => rfl]
      exact .gaugeStop (.refl _)
    next => exact booksStep_of_eq rfl rfl
  next => exact booksStep_of_eq rfl rfl

/-- `recordOutcome` records the outcome of a task in counters and metrics. -/
theorem booksStep_recordOutcome (s : Scheduler β η) (r : TaskRef) :
    BooksStep s (s.recordOutcome r) := by
  unfold recordOutcome
  split
  next t ht =>
    split
    next o hp =>
      refine booksStep_of_modify ht rfl fun rest => ?_
      change Books.Step _ _ (({ s with counters := s.counters.record (t.report s.now o) }).measure
        fun m => m.recordFinished (t.report s.now o).taskType (t.report s.now o).status
          (t.report s.now o).duration).books _
      rw [hp, books_measure _ fun _ => rfl]
      exact .record (t.report s.now o) (.refl _)
    next => exact booksStep_of_eq rfl rfl
  next => exact booksStep_of_eq rfl rfl

/-- `sendReport` hands the report of a task over. -/
theorem booksStep_sendReport [TaskQueue β] (s : Scheduler β η) (r : TaskRef) (wall : Timestamp) :
    BooksStep s (s.sendReport r wall) := by
  unfold sendReport
  split
  next t ht =>
    split
    next report hp =>
      refine booksStep_of_modify ht rfl fun rest => ?_
      rw [hp]
      exact .report r report (.refl _)
    next => exact booksStep_of_eq rfl rfl
  next => exact booksStep_of_eq rfl rfl

/-! ### All moves -/

/-- `stepTask` does one of the steps of the books, whatever the phase of the task is. -/
theorem booksStep_stepTask (s : Scheduler β η) (r : TaskRef) : BooksStep s (s.stepTask r) := by
  unfold stepTask
  split
  next t ht =>
    have hquiet : ∀ {s' : Scheduler β η}, ¬ MayWrite (.event (.stepTask r)) r t →
        Turns s (.event (.stepTask r)) s' → s'.books = s.books → BooksStep s s' := by
      intro s' hphase hturns hbooks
      refine booksStep_of_eq hbooks (entries_eq_of_turns hturns fun r' t' ht' hwrite => ?_)
      obtain rfl := hwrite.eq
      obtain rfl : t = t' := Option.some.inj (ht.symm.trans ht')
      exact hphase hwrite
    split
    next hp =>
      exact hquiet (by simp [MayWrite, hp]) (s.turns_armWorker r) (s.books_armWorker r)
    next hp =>
      exact hquiet (by simp [MayWrite, hp]) (s.turns_startWorker r) (s.books_startWorker r)
    next => exact s.booksStep_countStart r
    next hp =>
      exact hquiet (by simp [MayWrite, hp]) (s.turns_lookUpPipeline r) (s.books_lookUpPipeline r)
    next hp =>
      exact hquiet (by simp [MayWrite, hp]) (s.turns_enterStage r) (s.books_enterStage r)
    next hp =>
      exact hquiet (by simp [MayWrite, hp]) (s.turns_stopWorker r) (s.books_stopWorker r)
    next => exact s.booksStep_countStop r
    next => exact s.booksStep_recordOutcome r
    next hp => exact hquiet (by simp [MayWrite, hp]) (s.turns_endTask r) (s.books_endTask r)
    next => exact booksStep_of_eq rfl rfl
  next => exact booksStep_of_eq rfl rfl

/-- Every move of a scheduler with `Tracked` tasks is a `BooksStep`. -/
theorem booksStep_move [TaskQueue β] (htracked : Tracked s.tasks s.runs) (m : Move η) :
    BooksStep s (s.move m) := by
  have hquiet : writes m = false → (s.move m).books = s.books → BooksStep s (s.move m) := by
    intro hm hbooks
    have hentries : entries (s.move m).tasks = entries s.tasks :=
      entries_eq_of_turns (turns_move htracked m) fun r t _ hwrite =>
        absurd hwrite.writes (by simp [hm])
    exact booksStep_of_eq hbooks hentries
  cases m with
  | event e =>
    cases e with
    | stepTask r => exact s.booksStep_stepTask r
    | report r wall => exact s.booksStep_sendReport r wall
    | callRun => exact hquiet rfl s.books_callRun
    | ping i => exact hquiet rfl (s.books_answerPing i _)
    | stepPop i => exact hquiet rfl (s.books_stepPop i)
    | pop i wall => exact hquiet rfl (s.books_popQueue i wall)
    | stepDispatch i => exact hquiet rfl (s.books_stepDispatch i)
    | returnFromStage r o => exact hquiet rfl (s.books_returnFromStage r o)
    | breakOff r p => exact hquiet rfl (s.books_breakOff r p)
    | callPipeline r c taskType input =>
      exact hquiet rfl (s.books_callPipeline r c taskType input)
    | cancelTask r => exact hquiet rfl (s.books_cancelTask r)
    | cancel id wall => exact hquiet rfl (s.books_cancel id wall)
    | push taskType data timeout priority =>
      exact hquiet rfl (s.books_push taskType data timeout priority)
    | pass span => exact hquiet rfl rfl
    | fireTimer => exact hquiet rfl rfl
    | background => exact hquiet rfl rfl
    | derive parent timeout => exact hquiet rfl rfl
    | cancelToken k => exact hquiet rfl rfl
    | shutDown i => exact hquiet rfl rfl
    | register taskType stage => exact hquiet rfl rfl
  | markCanceled r => exact hquiet rfl rfl
  | dropCanceled r => exact hquiet rfl (s.books_dropCanceled r)
  | cancelQueued id wall => exact hquiet rfl rfl

end Scheduler

end TaskScheduler
