import TaskScheduler.Proofs.Scheduler.Drain
import TaskScheduler.Proofs.Scheduler.Settings

/-!
# The guard of a run

A scheduler is run by at most one call at a time.  The call sets a flag when it begins and clears it
when it returns, and a call that finds the flag set returns at once.  Between these two the call may
fail in two ways: the queue does not answer, and then it returns an error; or there is no buffer of
the size that the settings ask for, and then it breaks off and does not get as far as clearing the
flag.

`RunsStep` lists what a step of a scheduler can do to the calls and the flag, and everything else is
proved by cases on it.  The flag counts the calls that hold it: this is so in every state, whatever
the settings are and whatever the queue answers.  The settings decide only whether all of these
calls are still under way, which is the case exactly as long as a buffer of the size they ask for
can be made; validation does not ask this.
-/

namespace TaskScheduler

variable {β η : Type}

/-! ### Calls and the flag -/

/-- The call has set the flag and has not cleared it. -/
def RunPhase.holdsGuard : RunPhase → Bool
  | .returned _ => false
  | _ => true

/-- The call has broken off. -/
def RunPhase.isBroken : RunPhase → Bool
  | .brokenOff => true
  | _ => false

/-- The loops of the call are or were at work. -/
def RunPhase.hasLooped : RunPhase → Bool
  | .looping _ | .returned (.ok _) => true
  | _ => false

/-- The call has returned an error. -/
def RunPhase.hasFailed : RunPhase → Bool
  | .returned (.error _) => true
  | _ => false

/-- The calls that hold the flag are those that are live and those that have broken off. -/
theorem countP_isLive_add (runs : List Run) :
    runs.countP Run.isLive + runs.countP (·.phase.isBroken) =
      runs.countP (·.phase.holdsGuard) := by
  induction runs with
  | nil => rfl
  | cons run runs ih =>
    rw [List.countP_cons, List.countP_cons, List.countP_cons, ← ih]
    obtain ⟨phase, b⟩ := run
    cases phase <;> simp [Run.isLive, RunPhase.isBroken, RunPhase.holdsGuard] <;> omega

/-- What a step makes of the calls and of the flag, when the settings ask for a buffer of a size. -/
inductive RunsStep (size : Nat) (runs : List Run) (active : Bool) : List Run → Bool → Prop
  /-- Nothing. -/
  | same : RunsStep size runs active runs active
  /-- A call is refused, because the settings are not valid or another call holds the flag. -/
  | refuse (e : SchedulerError) :
    RunsStep size runs active (runs ++ [{ phase := .returned (.error e) }]) active
  /-- A call sets the flag. -/
  | begin (h : active = false) : RunsStep size runs active (runs ++ [{ phase := .pinging }]) true
  /-- The queue does not answer a call. -/
  | fail {i : Nat} {b : Bool} (h : runs[i]? = some ⟨.pinging, b⟩) (e : SchedulerError) :
    RunsStep size runs active
      (runs.modify i fun run => { run with phase := .returned (.error e) }) false
  /-- The loops of a call begin. -/
  | loop {i : Nat} {b : Bool} (h : runs[i]? = some ⟨.pinging, b⟩)
    (hsize : size ≤ Scheduler.greatestBuffer) :
    RunsStep size runs active (runs.modify i fun run => { run with phase := .looping {} }) active
  /-- A call breaks off. -/
  | breakOff {i : Nat} {b : Bool} (h : runs[i]? = some ⟨.pinging, b⟩)
    (hsize : Scheduler.greatestBuffer < size) :
    RunsStep size runs active (runs.modify i fun run => { run with phase := .brokenOff }) active
  /-- A call is asked to stop. -/
  | shutDown (i : Nat) :
    RunsStep size runs active (runs.modify i fun run => { run with shutdown := true }) active
  /-- The loops of a call go on. -/
  | go {i : Nat} {l : Loops} {b : Bool} (h : runs[i]? = some ⟨.looping l, b⟩) (l' : Loops) :
    RunsStep size runs active (runs.modify i fun run => { run with phase := .looping l' }) active
  /-- A call returns. -/
  | finish {i : Nat} {l : Loops} {b : Bool} (h : runs[i]? = some ⟨.looping l, b⟩) :
    RunsStep size runs active
      (runs.modify i fun run => { run with phase := .returned (.ok ()) }) false

/-- Every step of the core does to the calls and the flag one of the things in `RunsStep`. -/
theorem Core.Step.runsStep [TaskQueue β] {c c' : Core β η} {size : Nat} (h : Core.Step size c c') :
    RunsStep size c.runs c.active c'.runs c'.active := by
  cases h with
  | idle | push | cancelQueued | work | report | cancel | release => exact .same
  | refuse e => exact .refuse e
  | begin h => exact .begin h
  | fail h e => exact .fail h e
  | loop h hc => exact .loop h hc
  | breakOff h hc => exact .breakOff h hc
  | shutDown i => exact .shutDown i
  | loops h hl => exact .go h _
  | popped h | unpopped h | enroll h | reject h | take h | spawn h | skip h =>
    exact .go (Core.runs_of_loops? h).choose_spec _
  | finish h => exact .finish (Core.runs_of_loops? h).choose_spec

namespace RunsStep

variable {size : Nat} {runs runs' : List Run} {active active' : Bool}

/-- `List.countP` counts one more, or one less, or as many of a list in which one element
changes. -/
theorem countP_modify {α : Type} {p : α → Bool} {l : List α} {i : Nat} {a : α} (f : α → α)
    (h : l[i]? = some a) :
    (l.modify i f).countP p + (p a).toNat = l.countP p + (p (f a)).toNat := by
  induction l generalizing i with
  | nil => simp at h
  | cons x l ih =>
    cases i with
    | zero =>
      obtain rfl : x = a := by simpa using h
      rw [List.modify_zero_cons, List.countP_cons, List.countP_cons]
      cases p x <;> cases p (f x) <;> simp
    | succ i =>
      have hrest := ih (i := i) (by simpa using h)
      rw [List.modify_succ_cons, List.countP_cons, List.countP_cons]
      omega

/-- `List.countP` counts as many of a list in which one element changes but for what the test says
of it. -/
theorem countP_modify_of_eq {α : Type} {p : α → Bool} {l : List α} {i : Nat} {f : α → α}
    (hf : ∀ a, l[i]? = some a → p (f a) = p a) : (l.modify i f).countP p = l.countP p := by
  cases h : l[i]? with
  | none => rw [modify_eq_self_of_none f h]
  | some a =>
    have hcount := countP_modify (p := p) f h
    rw [hf a h] at hcount
    exact Nat.add_right_cancel hcount

/-- In a `RunsStep` the number of calls that hold the flag stays one if the flag is set, and none if
it is not. -/
theorem countP_holdsGuard (h : RunsStep size runs active runs' active')
    (hcount : runs.countP (·.phase.holdsGuard) = active.toNat) :
    runs'.countP (·.phase.holdsGuard) = active'.toNat := by
  -- the one call that holds the flag lets go of it
  have hrelease : ∀ {i : Nat} {run : Run} (f : Run → Run), runs[i]? = some run →
      run.phase.holdsGuard = true → (f run).phase.holdsGuard = false →
        (runs.modify i f).countP (·.phase.holdsGuard) = false.toNat := by
    intro i run f hrun hbefore hafter
    have hone := countP_modify (p := (·.phase.holdsGuard)) f hrun
    rw [hcount, hbefore, hafter] at hone
    have hle := Bool.toNat_le active
    simp only [Bool.toNat_true, Bool.toNat_false] at hone ⊢
    omega
  have hkeep : ∀ {i : Nat} {f : Run → Run},
      (∀ run, runs[i]? = some run → (f run).phase.holdsGuard = run.phase.holdsGuard) →
        (runs.modify i f).countP (·.phase.holdsGuard) = active.toNat := by
    intro i f hf
    rw [← hcount]
    exact countP_modify_of_eq hf
  cases h with
  | same => exact hcount
  | refuse e =>
    rw [List.countP_append, hcount]
    rfl
  | begin h =>
    rw [List.countP_append, hcount, h]
    rfl
  | fail h e => exact hrelease _ h rfl rfl
  | finish h => exact hrelease _ h rfl rfl
  | loop h hsize =>
    refine hkeep fun run hrun => ?_
    obtain rfl := Option.some.inj (h.symm.trans hrun)
    rfl
  | breakOff h hsize =>
    refine hkeep fun run hrun => ?_
    obtain rfl := Option.some.inj (h.symm.trans hrun)
    rfl
  | go h l' =>
    refine hkeep fun run hrun => ?_
    obtain rfl := Option.some.inj (h.symm.trans hrun)
    rfl
  | shutDown i => exact hkeep fun _ _ => rfl

/-- In a `RunsStep` a call keeps what it has behind it, if it is nothing that a call begins with and
what the loops do does not take it away. -/
theorem persists (h : RunsStep size runs active runs' active') {p : RunPhase → Bool}
    (hpinging : p .pinging = false) (hgo : ∀ l l', p (.looping l) → p (.looping l'))
    (hfinish : ∀ l, p (.looping l) → p (.returned (.ok ()))) {i : Nat}
    (hi : runs[i]?.any fun run => p run.phase) : runs'[i]?.any fun run => p run.phase := by
  obtain ⟨run, hrun, hp⟩ := (Option.any_eq_true _ _).1 hi
  have hadd : ∀ new, ((runs ++ [new])[i]?.any fun run => p run.phase) = true := by
    intro new
    rw [List.getElem?_append_left (List.getElem?_eq_some_iff.1 hrun).1]
    exact hi
  have hmodify : ∀ {j : Nat} {f : Run → Run}, (runs[j]? = some run → p (f run).phase = true) →
      ((runs.modify j f)[i]?.any fun run => p run.phase) = true := by
    intro j f hf
    rw [List.getElem?_modify, hrun]
    by_cases hij : j = i
    · subst hij
      simpa using hf hrun
    · simpa [hij] using hp
  -- a call that waits for the queue has nothing behind it
  have hno : ∀ {j : Nat} {b : Bool} {q : Bool}, runs[j]? = some ⟨.pinging, b⟩ →
      runs[j]? = some run → q = true := by
    intro j b q hj hj'
    obtain rfl := Option.some.inj (hj.symm.trans hj')
    exact absurd (hpinging.symm.trans hp) (by simp)
  cases h with
  | same => exact hi
  | refuse e => exact hadd _
  | begin h => exact hadd _
  | fail h e => exact hmodify (hno h)
  | loop h hsize => exact hmodify (hno h)
  | breakOff h hsize => exact hmodify (hno h)
  | shutDown j => exact hmodify fun _ => hp
  | go h l' =>
    refine hmodify fun hj => ?_
    obtain rfl := Option.some.inj (h.symm.trans hj)
    exact hgo _ _ hp
  | finish h =>
    refine hmodify fun hj => ?_
    obtain rfl := Option.some.inj (h.symm.trans hj)
    exact hfinish _ hp

/-- In a `RunsStep` no call comes to have behind it what no call has, if the size of the buffer does
not allow it. -/
theorem avoids (h : RunsStep size runs active runs' active') {p : RunPhase → Bool}
    (hpinging : p .pinging = false) (hfail : ∀ e, p (.returned (.error e)) = false)
    (hloop : size ≤ Scheduler.greatestBuffer → p (.looping {}) = false)
    (hbreak : Scheduler.greatestBuffer < size → p .brokenOff = false)
    (hgo : ∀ l l', p (.looping l) = false → p (.looping l') = false)
    (hfinish : ∀ l, p (.looping l) = false → p (.returned (.ok ())) = false)
    (hnone : ∀ run ∈ runs, p run.phase = false) : ∀ run ∈ runs', p run.phase = false := by
  have hadd : ∀ new : Run, p new.phase = false → ∀ run ∈ runs ++ [new], p run.phase = false := by
    intro new hnew run hrun
    rcases List.mem_append.1 hrun with hold | hlast
    · exact hnone run hold
    · rw [List.mem_singleton.1 hlast]
      exact hnew
  cases h with
  | same => exact hnone
  | refuse e => exact hadd _ (hfail e)
  | begin h => exact hadd _ hpinging
  | fail h e => exact forall_mem_modify hnone fun _ _ _ => hfail e
  | loop h hsize => exact forall_mem_modify hnone fun _ _ _ => hloop hsize
  | breakOff h hsize => exact forall_mem_modify hnone fun _ _ _ => hbreak hsize
  | shutDown i => exact forall_mem_modify hnone fun _ _ hp => hp
  | go h l' =>
    have hold := hnone _ (List.mem_of_getElem? h)
    exact forall_mem_modify hnone fun _ _ _ => hgo _ l' hold
  | finish h =>
    have hold := hnone _ (List.mem_of_getElem? h)
    exact forall_mem_modify hnone fun _ _ _ => hfinish _ hold

end RunsStep

/-! ### The guard -/

namespace Scheduler

variable {s : Scheduler β η} {i : Nat}

/-- The flag is set exactly while one call is under way, and no two calls are; no call has broken
off. -/
structure GuardExact (s : Scheduler β η) : Prop where
  /-- One call is under way if the flag is set, and none if it is not. -/
  count : s.runs.countP Run.isLive = s.active.toNat
  /-- Every call returns. -/
  whole : ∀ run ∈ s.runs, run.phase.isBroken = false

/-- The flag is set and no call is under way. -/
def IsBlocked (s : Scheduler β η) : Prop :=
  s.active = true ∧ s.runs.countP Run.isLive = 0

/-- As long as no call has broken off, the guard is exact in the sense of `GuardExact`. -/
theorem guardExact_of_whole
    (hcount : s.runs.countP (·.phase.holdsGuard) = s.active.toNat)
    (hwhole : ∀ run ∈ s.runs, run.phase.isBroken = false) : s.GuardExact := by
  have hnone : s.runs.countP (·.phase.isBroken) = 0 :=
    List.countP_eq_zero.2 fun run hrun => Bool.eq_false_iff.1 (hwhole run hrun)
  refine ⟨?_, hwhole⟩
  rw [← hcount, ← countP_isLive_add, hnone, Nat.add_zero]

/-- A call that has broken off leaves the scheduler blocked in the sense of `IsBlocked`. -/
theorem isBlocked_of_isBroken (hcount : s.runs.countP (·.phase.holdsGuard) = s.active.toNat)
    (hi : (s.runs[i]?.any fun run => run.phase.isBroken) = true) : s.IsBlocked := by
  obtain ⟨run, hrun, hbroken⟩ := (Option.any_eq_true _ _).1 hi
  have hpos : 0 < s.runs.countP (·.phase.isBroken) :=
    List.countP_pos_iff.2 ⟨run, List.mem_of_getElem? hrun, hbroken⟩
  have hsum := countP_isLive_add s.runs
  have hle := Bool.toNat_le s.active
  have hone : s.active.toNat = 1 := by omega
  exact ⟨Bool.toNat_eq_one.1 hone, by omega⟩

end Scheduler

/-! ### Histories -/

/-- A move, or an answer of the queue to a call that waits for one, whatever that answer may be. -/
inductive OpenMove (η : Type) where
  /-- A move. -/
  | move (m : Move η)
  /-- The queue answers a call. -/
  | answer (i : Nat) (answer : Except QueueError Unit)

/-- A step of the loops of a call. -/
def OpenMove.isOfLoops (i : Nat) : OpenMove η → Bool
  | .move (.event (.stepPop j)) => i = j
  | .move (.event (.pop j _)) => i = j
  | .move (.event (.stepDispatch j)) => i = j
  | _ => false

namespace Scheduler

variable [TaskQueue β] {s : Scheduler β η} {i : Nat}

/-- The scheduler after a move or an answer. -/
def moveOpen (s : Scheduler β η) : OpenMove η → Scheduler β η
  | .move m => s.move m
  | .answer i answer => s.answerPing i answer

/-- The scheduler after a list of moves and answers. -/
def afterOpen (s : Scheduler β η) (history : List (OpenMove η)) : Scheduler β η :=
  history.foldl moveOpen s

/-- The state after a history of two parts is that of `afterOpen` with the second part from where
the first one ends. -/
theorem afterOpen_append (s : Scheduler β η) (history more : List (OpenMove η)) :
    s.afterOpen (history ++ more) = (s.afterOpen history).afterOpen more :=
  List.foldl_append

/-- What an `OpenMove` makes of the calls and the flag is a `RunsStep`. -/
theorem runsStep_moveOpen (s : Scheduler β η) (m : OpenMove η) :
    RunsStep s.config.waitBuffer s.runs s.active (s.moveOpen m).runs (s.moveOpen m).active := by
  cases m with
  | move m => exact (s.core_move m).runsStep
  | answer i answer => exact (s.core_answerPing i answer).runsStep

/-- An `OpenMove` leaves the settings alone. -/
theorem config_moveOpen (s : Scheduler β η) (m : OpenMove η) :
    (s.moveOpen m).config = s.config := by
  cases m with
  | move m => exact s.config_move m
  | answer i answer => exact (s.given_answerPing i answer).1

/-- What holds at first of the calls and the flag, and is kept by every `RunsStep`, holds after
every history. -/
theorem afterOpen_induction {n : Nat} {P : List Run → Bool → Prop}
    (hstep : ∀ {runs active runs' active'}, RunsStep n runs active runs' active' →
      P runs active → P runs' active')
    (hsize : s.config.waitBuffer = n) (hs : P s.runs s.active) (history : List (OpenMove η)) :
    P (s.afterOpen history).runs (s.afterOpen history).active := by
  induction history generalizing s with
  | nil => exact hs
  | cons m history ih =>
    have hconfig : (s.moveOpen m).config.waitBuffer = n := by rw [config_moveOpen, hsize]
    exact ih hconfig (hstep (hsize ▸ s.runsStep_moveOpen m) hs)

/-- What a call has behind it once, it has behind it after every history, under the assumptions of
`RunsStep.persists`. -/
theorem any_afterOpen {p : RunPhase → Bool} (hpinging : p .pinging = false)
    (hgo : ∀ l l', p (.looping l) → p (.looping l'))
    (hfinish : ∀ l, p (.looping l) → p (.returned (.ok ())))
    (hi : s.runs[i]?.any fun run => p run.phase) (history : List (OpenMove η)) :
    (s.afterOpen history).runs[i]?.any fun run => p run.phase :=
  afterOpen_induction (P := fun runs _ => runs[i]?.any fun run => p run.phase)
    (fun h => h.persists hpinging hgo hfinish) rfl hi history

/-- An `OpenMove` of the loops of a call that has not begun to loop does nothing. -/
theorem moveOpen_of_not_looped (h : (s.runs[i]?.any fun run => run.phase.hasLooped) = false)
    {m : OpenMove η} (hm : m.isOfLoops i = true) : s.moveOpen m = s := by
  have hnone : s.loops? i = none := by
    unfold loops?
    split
    next hrun =>
      rw [hrun] at h
      exact absurd h (by simp [RunPhase.hasLooped])
    next => rfl
  unfold OpenMove.isOfLoops at hm
  split at hm
  next j =>
    obtain rfl := of_decide_eq_true hm
    change s.stepPop i = s
    unfold stepPop
    rw [hnone]
  next j wall =>
    obtain rfl := of_decide_eq_true hm
    change s.popQueue i wall = s
    unfold popQueue
    rw [hnone]
  next j =>
    obtain rfl := of_decide_eq_true hm
    change s.stepDispatch i = s
    unfold stepDispatch
    rw [hnone]
  next => exact absurd hm (by simp)

/-- In the course of a history the loops of a call have done nothing, so they have popped
nothing. -/
def IdleAlong (s : Scheduler β η) (history : List (OpenMove η)) (i : Nat) : Prop :=
  ∀ before m after, history = before ++ m :: after → m.isOfLoops i = true →
    (s.afterOpen before).moveOpen m = s.afterOpen before

/-- After every history of a new scheduler the flag says how many calls hold it. -/
theorem countP_holdsGuard_afterOpen (config : SchedulerConfig) (queue : β)
    (metrics : Option Metrics) (history : List (OpenMove η)) :
    ((new config queue metrics).afterOpen history).runs.countP (·.phase.holdsGuard) =
      ((new config queue metrics).afterOpen history).active.toNat :=
  afterOpen_induction (P := fun runs active => runs.countP (·.phase.holdsGuard) = active.toNat)
    RunsStep.countP_holdsGuard rfl rfl history

/-- The loops of a call that has returned an error have done nothing in the whole history. -/
theorem idleAlong_of_hasFailed (s : Scheduler β η) (history : List (OpenMove η))
    (hi : ((s.afterOpen history).runs[i]?.any fun run => run.phase.hasFailed) = true) :
    s.IdleAlong history i := by
  rintro before m after rfl hm
  refine moveOpen_of_not_looped (Bool.eq_false_iff.2 fun hlooped => ?_) hm
  rw [afterOpen_append] at hi
  have hlater := any_afterOpen (p := RunPhase.hasLooped) rfl (fun _ _ _ => rfl) (fun _ _ => rfl)
    hlooped (m :: after)
  obtain ⟨run, hrun, hfailed⟩ := (Option.any_eq_true _ _).1 hi
  rw [hrun] at hlater
  obtain ⟨phase, b⟩ := run
  cases phase with
  | returned result => cases result <;> simp_all [RunPhase.hasFailed, RunPhase.hasLooped]
  | _ => simp [RunPhase.hasFailed] at hfailed

/-- Somebody calls for a run, and the queue is there. -/
def answeredCall : List (OpenMove η) := [.move (.event .callRun), .answer 0 (.ok ())]

/-- After `answeredCall` the call has broken off if no buffer can be as large as the settings ask
for. -/
theorem runs_answeredCall {config : SchedulerConfig} (hvalid : config.validate = .ok ())
    (hsize : greatestBuffer < config.waitBuffer) (queue : β) (metrics : Option Metrics) :
    ((new config queue metrics : Scheduler β η).afterOpen answeredCall).runs =
      [{ phase := .brokenOff }] := by
  have hcall : (new config queue metrics : Scheduler β η).moveOpen (.move (.event .callRun)) =
      { (new config queue metrics : Scheduler β η) with
        runs := [{ phase := .pinging }], active := true } := by
    change (new config queue metrics : Scheduler β η).callRun = _
    unfold callRun
    have hconfig : (new config queue metrics : Scheduler β η).config = config := rfl
    rw [hconfig, hvalid]
    rfl
  have hno : ¬ (new config queue metrics : Scheduler β η).config.waitBuffer ≤ greatestBuffer :=
    Nat.not_le_of_lt hsize
  change (((new config queue metrics : Scheduler β η).moveOpen (.move (.event .callRun))).answerPing
    0 (.ok ())).runs = _
  rw [hcall]
  unfold answerPing
  dsimp only [List.getElem?_cons_zero]
  rw [if_neg hno]
  rfl

/-- The guard of a run.  Calls, answers of the queue, steps of the loops and the workers, shutdowns
and whatever else follow each other in any order.  In every state the flag is set if one call holds
it and not set if none does, and no two calls hold it, so no call clears the flag of another; and a
call that has returned an error has popped nothing.  With valid settings the calls that hold the
flag are all under way, in every state of every history, exactly if a buffer of the size that is
asked for can be made.  If not, then no call ever gets as far as its loops, and the first one whose
ping is answered breaks off and blocks the scheduler for good. -/
theorem guardExact_iff (config : SchedulerConfig) (queue : β) (metrics : Option Metrics)
    (hvalid : config.validate = .ok ()) :
    let start : Scheduler β η := new config queue metrics
    (∀ history,
      (start.afterOpen history).runs.countP (·.phase.holdsGuard) =
        (start.afterOpen history).active.toNat ∧
      ∀ i, ((start.afterOpen history).runs[i]?.any fun run => run.phase.hasFailed) = true →
        start.IdleAlong history i) ∧
    ((∀ history, (start.afterOpen history).GuardExact) ↔ config.waitBuffer ≤ greatestBuffer) ∧
    (greatestBuffer < config.waitBuffer → ∀ history,
      (∀ run ∈ (start.afterOpen history).runs, run.phase.hasLooped = false) ∧
      ((∃ run ∈ (start.afterOpen history).runs, run.phase.isBroken = true) →
        ∀ later, (start.afterOpen (history ++ later)).IsBlocked)) := by
  intro start
  have hcount : ∀ history, (start.afterOpen history).runs.countP (·.phase.holdsGuard) =
      (start.afterOpen history).active.toNat := countP_holdsGuard_afterOpen config queue metrics
  refine ⟨fun history => ⟨hcount history, fun i => idleAlong_of_hasFailed start history⟩,
    ⟨fun hexact => ?_, fun hsize history => ?_⟩, fun hsize history => ⟨?_, ?_⟩⟩
  · refine Nat.le_of_not_lt fun hsize => ?_
    have hwhole := (hexact answeredCall).whole
    rw [runs_answeredCall hvalid hsize] at hwhole
    exact absurd (hwhole _ List.mem_cons_self) (by simp [RunPhase.isBroken])
  · refine guardExact_of_whole (hcount history) ?_
    refine afterOpen_induction (s := start) (n := config.waitBuffer)
      (P := fun runs _ => ∀ run ∈ runs, run.phase.isBroken = false) (fun h => ?_) rfl
      (fun run hrun => absurd hrun List.not_mem_nil) history
    exact h.avoids rfl (fun _ => rfl) (fun _ => rfl)
      (fun hlarge => absurd hsize (Nat.not_le_of_lt hlarge)) (fun _ _ _ => rfl) fun _ _ => rfl
  · refine afterOpen_induction (s := start) (n := config.waitBuffer)
      (P := fun runs _ => ∀ run ∈ runs, run.phase.hasLooped = false) (fun h => ?_) rfl
      (fun run hrun => absurd hrun List.not_mem_nil) history
    exact h.avoids rfl (fun _ => rfl) (fun hsmall => absurd hsmall (Nat.not_le_of_lt hsize))
      (fun _ => rfl) (fun _ _ hl => nomatch hl) fun _ hl => nomatch hl
  · rintro ⟨run, hrun, hbroken⟩ later
    obtain ⟨i, hi⟩ := List.mem_iff_getElem?.1 hrun
    have hbefore :
        ((start.afterOpen history).runs[i]?.any fun run => run.phase.isBroken) = true := by
      rw [hi]
      exact hbroken
    refine isBlocked_of_isBroken (i := i) (hcount (history ++ later)) ?_
    rw [afterOpen_append]
    exact any_afterOpen (p := RunPhase.isBroken) rfl (fun _ _ hl => nomatch hl)
      (fun _ hl => nomatch hl) hbefore later

/-- `guardExact_iff` for the default settings, which `validate` accepts: the guard is exact in every
history. -/
theorem guardExact_iff_default :
    SchedulerConfig.default.validate = .ok () ∧
      ∀ history : List (OpenMove Unit),
        ((new .default oneTask none : Scheduler MemoryQueue Unit).afterOpen
          history).GuardExact := by
  have hvalid : SchedulerConfig.default.validate = .ok () := rfl
  exact ⟨hvalid, (guardExact_iff .default oneTask none hvalid).2.1.2 (by decide)⟩

/-- Settings that are valid and ask for a buffer that cannot be made. -/
def greedyConfig : SchedulerConfig := { SchedulerConfig.default with waitBuffer := 2 ^ 61 }

/-- With `greedyConfig` the queue is there and the call breaks off: the flag is set, and no call is
under way. -/
theorem exists_not_guardExact :
    greedyConfig.validate = .ok () ∧
      let s :=
        (new greedyConfig oneTask none : Scheduler MemoryQueue Unit).after [.callRun, .ping 0]
      s.active = true ∧ s.runs.countP Run.isLive = 0 ∧ ¬ s.GuardExact := by
  have hactive : ((new greedyConfig oneTask none : Scheduler MemoryQueue Unit).after
      [.callRun, .ping 0]).active = true := by decide
  have hnone : ((new greedyConfig oneTask none : Scheduler MemoryQueue Unit).after
      [.callRun, .ping 0]).runs.countP Run.isLive = 0 := by decide
  refine ⟨rfl, hactive, hnone, fun hexact => ?_⟩
  have hone := hexact.count
  rw [hactive, hnone] at hone
  exact absurd hone (by decide)

end Scheduler

end TaskScheduler
