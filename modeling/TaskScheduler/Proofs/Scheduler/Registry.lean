import TaskScheduler.Proofs.Scheduler.Turns
import TaskScheduler.Simulation.FaultyQueue

/-!
# The registry

The registry finds tasks by their ids, and a task leaves it by its id, not by what it is.  A queue
may hand an id out while an earlier task with the same id is still about, canceled or not, so
nothing in the registry itself says that a release hits the right task.

What makes it so is kept in the tasks: a task that finds its id taken is never registered, and a
task is released once.  `Enrolled` and `Listed` together say that the registry holds exactly the
tasks that were registered and have not been released, and from there a release by id is a release
by identity.
-/

namespace TaskScheduler

variable {β η : Type}

/-! ### What the registry holds -/

/-- What is found under an id is a task with that id which is registered and not released. -/
def Listed (tasks : List (Task η)) (registry : FiniteMap String TaskRef) : Prop :=
  ∀ (id : String) (r : TaskRef), registry.get? id = some r →
    ∃ t, tasks[r]? = some t ∧ t.id = id ∧ t.registered = true ∧ t.released = false

namespace Listed

variable {tasks : List (Task η)} {registry : FiniteMap String TaskRef} {r : TaskRef}

/-- A change of a task that keeps its id and its flags keeps the registry `Listed`. -/
theorem modifyTask (h : Listed tasks registry) {f : Task η → Task η}
    (hf : ∀ t, tasks[r]? = some t → (f t).popped = t.popped ∧ (f t).registered = t.registered ∧
      (f t).released = t.released) : Listed (tasks.modify r f) registry := by
  intro id r' hget
  obtain ⟨t, ht, hid, hregistered, hreleased⟩ := h id r' hget
  rw [List.getElem?_modify, ht]
  by_cases heq : r = r'
  · subst heq
    obtain ⟨hpopped, hreg, hrel⟩ := hf t ht
    have hid' : (f t).id = id := by
      rw [← hid, Task.id, Task.id, hpopped]
    exact ⟨f t, by simp, hid', hreg.trans hregistered, hrel.trans hreleased⟩
  · exact ⟨t, by simp [heq], hid, hregistered, hreleased⟩

/-- One more task keeps the registry `Listed`: the others stay in their places. -/
theorem addTask (h : Listed tasks registry) (t : Task η) : Listed (tasks ++ [t]) registry := by
  intro id r hget
  obtain ⟨t', ht', hrest⟩ := h id r hget
  have hlt : r < tasks.length := (List.getElem?_eq_some_iff.1 ht').1
  exact ⟨t', by rw [List.getElem?_append_left hlt, ht'], hrest⟩

/-- Registering a task that was not released keeps the registry `Listed`. -/
theorem enroll (h : Listed tasks registry) {t : Task η} (ht : tasks[r]? = some t)
    (hreleased : t.released = false) {f : Task η → Task η} (hpopped : (f t).popped = t.popped)
    (hreg : (f t).registered = true) (hrel : (f t).released = t.released) :
    Listed (tasks.modify r f) (registry.insert t.id r) := by
  intro id r' hget
  rw [FiniteMap.get?_insert] at hget
  rw [List.getElem?_modify]
  have hid : (f t).id = t.id := by rw [Task.id, Task.id, hpopped]
  by_cases heq : r = r'
  · subst heq
    refine ⟨f t, by simp [ht], ?_, hreg, hrel.trans hreleased⟩
    split at hget
    next hsame => exact hid.trans hsame.symm
    next =>
      obtain ⟨u, hu, hid', -⟩ := h id r hget
      obtain rfl : t = u := Option.some.inj (ht.symm.trans hu)
      exact hid.trans hid'
  · split at hget
    next => exact absurd (Option.some.inj hget) heq
    next =>
      obtain ⟨u, hu, hrest⟩ := h id r' hget
      exact ⟨u, by simp [heq, hu], hrest⟩

/-- The release of a task, which takes it out of the registry if it was there, keeps the registry
`Listed`. -/
theorem release (h : Listed tasks registry) {t : Task η} (ht : tasks[r]? = some t)
    {f : Task η → Task η} (released : Bool) (hpopped : (f t).popped = t.popped)
    (hregistered : (f t).registered = t.registered)
    (hreleased : (f t).released = (t.released || released)) :
    Listed (tasks.modify r f)
      (if released && !t.released && t.registered then registry.erase t.id else registry) := by
  intro id r' hget
  have hkept : registry.get? id = some r' := by
    split at hget
    next => exact FiniteMap.get?_of_get?_erase hget
    next => exact hget
  obtain ⟨u, hu, hid, hreg, hrel⟩ := h id r' hkept
  rw [List.getElem?_modify, hu]
  by_cases heq : r = r'
  · subst heq
    obtain rfl : t = u := Option.some.inj (ht.symm.trans hu)
    have hid' : (f t).id = id := by
      rw [← hid, Task.id, Task.id, hpopped]
    have hnot : released = false := by
      cases hreleased' : released with
      | false => rfl
      | true =>
        rw [hreleased', hrel, hreg, ← hid] at hget
        simp at hget
    exact ⟨f t, by simp, hid', hregistered.trans hreg, by rw [hreleased, hrel, hnot]; rfl⟩
  · exact ⟨u, by simp [heq], hid, hreg, hrel⟩

end Listed

/-- Every step of the core keeps the registry `Listed`. -/
theorem Core.Step.listed [TaskQueue β] {c c' : Core β η} {n : Nat} (h : Core.Step n c c')
    (htracked : Tracked c.tasks c.runs)
    (hfresh : ∀ t ∈ c.tasks, t.phase = .popped → t.released = false)
    (hl : Listed c.tasks c.registry) : Listed c'.tasks c'.registry := by
  cases h with
  | idle => exact hl
  | push e priority => exact hl
  | cancelQueued id wall => exact hl
  | refuse e => exact hl
  | begin h => exact hl
  | fail h e => exact hl
  | loop h => exact hl
  | breakOff h => exact hl
  | shutDown i => exact hl
  | loops h hl' => exact hl
  | popped h hp ha now => exact hl.addTask _
  | unpopped h hp => exact hl
  | @enroll i l r t h hp ht hn now =>
    obtain ⟨t', ht', hplace⟩ := htracked.exists_of_loops? h (Loops.mem_placed_of_holding hp)
    obtain rfl : t = t' := Option.some.inj (ht.symm.trans ht')
    have hreleased := hfresh t (List.mem_of_getElem? ht) (Phase.eq_of_place? hplace)
    exact hl.enroll ht hreleased rfl rfl rfl
  | reject h hp ht hn now => exact hl.modifyTask fun _ _ => ⟨rfl, rfl, rfl⟩
  | take h hl' => exact hl.modifyTask fun _ _ => ⟨rfl, rfl, rfl⟩
  | spawn h hl' => exact hl.modifyTask fun _ _ => ⟨rfl, rfl, rfl⟩
  | skip h hl' => exact hl.modifyTask fun _ _ => ⟨rfl, rfl, rfl⟩
  | finish h => exact hl
  | work ht h =>
    refine hl.modifyTask fun t' ht' => ?_
    rw [ht] at ht'
    exact Option.some.inj ht' ▸ h.flags_eq
  | report ht hp => exact hl.modifyTask fun _ _ => ⟨rfl, rfl, rfl⟩
  | cancel ht hs released => exact hl.release ht released rfl rfl rfl
  | release ht hp => exact hl.release ht true rfl rfl (Bool.or_true _).symm

/-- Nothing differs but one task and its entry in the registry. -/
def Core.AgreeExcept (c c' : Core β η) (r : TaskRef) : Prop :=
  ∀ r', r' ≠ r → c'.tasks[r']? = c.tasks[r']? ∧
    ∀ id, c'.registry.get? id = some r' ↔ c.registry.get? id = some r'

namespace Core

variable {c c' : Core β η} {r : TaskRef} {t : Task η}

/-- Cores with the same tasks and the same registry agree except on any task. -/
theorem agreeExcept_of_eq (htasks : c'.tasks = c.tasks) (hregistry : c'.registry = c.registry)
    (r : TaskRef) : c.AgreeExcept c' r :=
  fun _ _ => ⟨by rw [htasks], fun _ => by rw [hregistry]⟩

/-- Cores of which one has a changed task agree except on this task. -/
theorem agreeExcept_of_modify {f : Task η → Task η} (htasks : c'.tasks = c.tasks.modify r f)
    (hregistry : c'.registry = c.registry) : c.AgreeExcept c' r := by
  refine fun r' hne => ⟨?_, fun _ => by rw [hregistry]⟩
  rw [htasks]
  simp [Ne.symm hne]

/-- Cores of which one has a task more agree except on this task. -/
theorem agreeExcept_of_append (htasks : c'.tasks = c.tasks ++ [t])
    (hregistry : c'.registry = c.registry) : c.AgreeExcept c' c.tasks.length := by
  refine fun r hne => ⟨?_, fun _ => by rw [hregistry]⟩
  rw [htasks]
  rcases Nat.lt_or_gt_of_ne hne with hlt | hgt
  · exact List.getElem?_append_left hlt
  · have hlength : (c.tasks ++ [t]).length ≤ r := by
      rw [List.length_append, List.length_singleton]
      exact hgt
    rw [List.getElem?_eq_none hlength, List.getElem?_eq_none (Nat.le_of_lt hgt)]

/-- Cores of which one has a task registered under an id that was free agree except on this task. -/
theorem agreeExcept_of_enroll {f : Task η → Task η} {id : String}
    (hfree : c.registry.contains id = false) (htasks : c'.tasks = c.tasks.modify r f)
    (hregistry : c'.registry = c.registry.insert id r) : c.AgreeExcept c' r := by
  refine fun r' hne => ⟨by rw [htasks]; simp [Ne.symm hne], fun id' => ?_⟩
  rw [hregistry, FiniteMap.get?_insert]
  split
  next hid =>
    have hnone : c.registry.get? id' = none := by
      rw [hid, ← Option.not_isSome_iff_eq_none]
      exact Bool.eq_false_iff.1 hfree
    rw [hnone]
    constructor
    · exact fun hsome => absurd (Option.some.inj hsome).symm hne
    · exact fun hsome => absurd hsome (by simp)
  next => exact Iff.rfl

/-- Cores of which one has a task released agree except on this task: what is erased under its id is
its own entry. -/
theorem agreeExcept_of_release (he : Enrolled c.tasks c.registry) (ht : c.tasks[r]? = some t)
    {f : Task η → Task η} {erases : Bool} (herases : erases = true → !t.released && t.registered)
    (htasks : c'.tasks = c.tasks.modify r f)
    (hregistry : c'.registry = if erases then c.registry.erase t.id else c.registry) :
    c.AgreeExcept c' r := by
  refine fun r' hne => ⟨by rw [htasks]; simp [Ne.symm hne], fun id => ?_⟩
  rw [hregistry]
  split
  next herased =>
    have hflags := herases herased
    simp only [Bool.and_eq_true, Bool.not_eq_true'] at hflags
    have hhere := he r t ht hflags.2 hflags.1
    by_cases hid : id = t.id
    · subst hid
      rw [FiniteMap.get?_erase_self, hhere]
      exact ⟨fun hnone => absurd hnone (by simp),
        fun hsome => absurd (Option.some.inj hsome).symm hne⟩
    · rw [FiniteMap.get?_erase_of_ne _ hid]
  next => exact Iff.rfl

/-- A step of the core touches at most one task and its entry in the registry. -/
theorem Step.agreeExcept [TaskQueue β] {n : Nat} (h : Step n c c')
    (he : Enrolled c.tasks c.registry) : ∃ r, c.AgreeExcept c' r := by
  cases h with
  | idle => exact ⟨0, agreeExcept_of_eq rfl rfl 0⟩
  | push e priority => exact ⟨0, agreeExcept_of_eq rfl rfl 0⟩
  | cancelQueued id wall => exact ⟨0, agreeExcept_of_eq rfl rfl 0⟩
  | refuse e => exact ⟨0, agreeExcept_of_eq rfl rfl 0⟩
  | begin h => exact ⟨0, agreeExcept_of_eq rfl rfl 0⟩
  | fail h e => exact ⟨0, agreeExcept_of_eq rfl rfl 0⟩
  | loop h => exact ⟨0, agreeExcept_of_eq rfl rfl 0⟩
  | breakOff h => exact ⟨0, agreeExcept_of_eq rfl rfl 0⟩
  | shutDown i => exact ⟨0, agreeExcept_of_eq rfl rfl 0⟩
  | loops h hl => exact ⟨0, agreeExcept_of_eq rfl rfl 0⟩
  | popped h hp ha now => exact ⟨_, agreeExcept_of_append rfl rfl⟩
  | unpopped h hp => exact ⟨0, agreeExcept_of_eq rfl rfl 0⟩
  | enroll h hp ht hn now => exact ⟨_, agreeExcept_of_enroll hn rfl rfl⟩
  | reject h hp ht hn now => exact ⟨_, agreeExcept_of_modify rfl rfl⟩
  | take h hl => exact ⟨_, agreeExcept_of_modify rfl rfl⟩
  | spawn h hl => exact ⟨_, agreeExcept_of_modify rfl rfl⟩
  | skip h hl => exact ⟨_, agreeExcept_of_modify rfl rfl⟩
  | finish h => exact ⟨0, agreeExcept_of_eq rfl rfl 0⟩
  | work ht h => exact ⟨_, agreeExcept_of_modify rfl rfl⟩
  | report ht hp => exact ⟨_, agreeExcept_of_modify rfl rfl⟩
  | @cancel r t ht hs released =>
    refine ⟨r, agreeExcept_of_release he ht (fun herases => ?_) rfl rfl⟩
    rw [Bool.and_assoc] at herases
    exact (Bool.and_eq_true_iff.1 herases).2
  | release ht hp => exact ⟨_, agreeExcept_of_release he ht id rfl rfl⟩

end Core

/-! ### Possible histories -/

namespace Scheduler

/-- Whoever cancels a task in place holds it, so it has been registered: a task that was just popped
is known to the popping loop alone, and one that is rejected never gets further. -/
def Allows (s : Scheduler β η) : Move η → Bool
  | .event (.cancelTask r) => (s.task? r).any Task.registered
  | .markCanceled r => (s.task? r).any Task.registered
  | _ => true

/-- A history in which every cancelation in place is one of a task that has been registered. -/
def Possible [TaskQueue β] (s : Scheduler β η) : List (Move η) → Bool
  | [] => true
  | m :: moves => s.Allows m && (s.move m).Possible moves

end Scheduler

/-- What a task knows of its registration. -/
structure Task.Lawful (t : Task η) : Prop where
  /-- A task that was just popped is not registered. -/
  popped : t.phase = .popped → t.registered = false
  /-- A task that is not registered was not started and not canceled. -/
  status : t.registered = false → t.status = .init

/-- A `Lawful` task that was just popped has not been released. -/
theorem Task.Lawful.released_eq_false {t : Task η} (h : t.Lawful) (hs : t.Sound)
    (hp : t.phase = .popped) : t.released = false := by
  cases hreleased : t.released with
  | false => rfl
  | true =>
    rcases hs.canceled hreleased with hended | hcanceled
    · exact absurd (hp.symm.trans hended) (by simp)
    · exact absurd ((h.status (h.popped hp)).symm.trans hcanceled) (by simp)

namespace Scheduler

/-- The registry of a scheduler and its tasks go together. -/
structure Consistent (s : Scheduler β η) : Prop where
  /-- Loops, places, reports and completions are in order. -/
  tidy : s.core.Tidy
  /-- Registered tasks are found until they are released. -/
  enrolled : Enrolled s.tasks s.registry
  /-- What is found is registered and not released. -/
  listed : Listed s.tasks s.registry
  /-- The tasks know whether they are registered. -/
  lawful : ∀ t ∈ s.tasks, t.Lawful

/-- A new scheduler is `Consistent`. -/
theorem consistent_new (config : SchedulerConfig) (queue : β) (metrics : Option Metrics) :
    (new config queue metrics : Scheduler β η).Consistent :=
  ⟨tidy_new config queue metrics, by simp [Enrolled, new], by simp [Listed, new], by simp [new]⟩

variable {s : Scheduler β η} {m : Move η} {r : TaskRef}

/-- A turn of a task keeps it `Lawful`, if the move is allowed. -/
theorem Consistent.lawful_of_turn (hs : s.Consistent) (hm : s.Allows m = true) {t t' : Task η}
    (ht : s.task? r = some t) (h : Task.Turn s m r t t') : t'.Lawful := by
  have hmem : t ∈ s.tasks := List.mem_of_getElem? ht
  have hlawful := hs.lawful t hmem
  have hsound : t.Sound := hs.tidy.reported.sound t hmem
  have hheld : (s.task? r).any Task.registered = true → t.registered = true := by
    rw [ht]
    exact id
  cases h with
  | same => exact hlawful
  | enroll hp hn => exact ⟨by simp, by simp⟩
  | reject hp hn => exact ⟨by simp, hlawful.status⟩
  | take hp => exact ⟨by simp, hlawful.status⟩
  | spawn hp hinit => exact ⟨by simp, hlawful.status⟩
  | skip hp hinit => exact ⟨by simp, hlawful.status⟩
  | arm hm hp hc => exact ⟨by simp, hlawful.status⟩
  | start hp hinit =>
    have hregistered : t.registered = true := hsound.registered (by simp [hp, Phase.isRegistered])
    exact ⟨by simp, by simp [hregistered]⟩
  | refuse hp hinit => exact ⟨by simp, hlawful.status⟩
  | countStart hp => exact ⟨by simp, hlawful.status⟩
  | gaugeStart hp => exact ⟨by simp, hlawful.status⟩
  | lookUp hp hfound => exact ⟨by simp, hlawful.status⟩
  | lack hp hnone => exact ⟨by simp, hlawful.status⟩
  | enter hp hstop => exact ⟨by simp, hlawful.status⟩
  | @leave top callers hp o => exact ⟨by cases callers <;> simp [leavePipeline], hlawful.status⟩
  | returned hp v => exact ⟨by simp, hlawful.status⟩
  | broke hp e => exact ⟨by simp, hlawful.status⟩
  | called hp hm hfound => exact ⟨by simp, hlawful.status⟩
  | stop hp =>
    have hregistered : t.registered = true := hsound.registered (by simp [hp, Phase.isRegistered])
    exact ⟨by simp, by simp [hregistered]⟩
  | countStop hp => exact ⟨by simp, hlawful.status⟩
  | gaugeStop hp => exact ⟨by simp, hlawful.status⟩
  | record hp => exact ⟨by simp, hlawful.status⟩
  | report hp => exact ⟨by simp, hlawful.status⟩
  | release hp => exact ⟨by simp, hlawful.status⟩
  | cancel hcancel hfinal =>
    have hregistered : t.registered = true := by
      rcases hcancel with rfl | ⟨id, wall, rfl, hget⟩
      · exact hheld hm
      · obtain ⟨u, hu, -, hregistered, -⟩ := hs.listed id r hget
        obtain rfl : t = u := Option.some.inj (ht.symm.trans hu)
        exact hregistered
    exact ⟨hlawful.popped, by simp [hregistered]⟩
  | mark hmark hfinal =>
    subst hmark
    have hregistered : t.registered = true := hheld hm
    exact ⟨hlawful.popped, by simp [hregistered]⟩
  | drop hdrop hcanceled => exact ⟨hlawful.popped, hlawful.status⟩

/-- Every allowed move keeps a scheduler `Consistent`. -/
theorem Consistent.move [TaskQueue β] (hs : s.Consistent) (hm : s.Allows m = true) :
    (s.move m).Consistent := by
  have hstep := s.core_move m
  have hturns := turns_move hs.tidy.tracked m
  refine ⟨hstep.tidy hs.tidy, hstep.enrolled hs.enrolled, ?_, ?_⟩
  · apply hstep.listed hs.tidy.tracked _ hs.listed
    intro t ht hp
    exact (hs.lawful t ht).released_eq_false (hs.tidy.reported.sound t ht) hp
  · refine hturns.forall_mem (P := Task.Lawful) ?_ ?_
    · intro p now
      exact ⟨fun _ => rfl, fun _ => rfl⟩
    · intro r t t' ht hturn
      exact hs.lawful_of_turn hm ht hturn

/-- A history is `Possible` if its first part is and its last move is allowed then. -/
theorem possible_concat [TaskQueue β] {s : Scheduler β η} {moves : List (Move η)} {m : Move η} :
    s.Possible (moves ++ [m]) = true ↔
      s.Possible moves = true ∧ (s.afterMoves moves).Allows m = true := by
  induction moves generalizing s with
  | nil => simp [Possible, Scheduler.afterMoves]
  | cons m' moves ih =>
    have hrest : (s.move m').Possible (moves ++ [m]) = true ↔ _ := ih
    rw [List.cons_append, Possible, Possible, Bool.and_eq_true, Bool.and_eq_true, hrest, and_assoc]
    rfl

/-- A scheduler stays `Consistent` along every possible history. -/
theorem Consistent.afterMoves [TaskQueue β] (hs : s.Consistent) {moves : List (Move η)}
    (hmoves : s.Possible moves = true) : (s.afterMoves moves).Consistent := by
  induction moves generalizing s with
  | nil => exact hs
  | cons m moves ih =>
    obtain ⟨hm, hrest⟩ := Bool.and_eq_true_iff.1 hmoves
    exact ih (hs.move hm) hrest

/-! ### Registered tasks -/

/-- A task has been registered and not released. -/
def InHand (s : Scheduler β η) (r : TaskRef) (t : Task η) : Prop :=
  s.task? r = some t ∧ t.registered = true ∧ t.released = false

/-- The registry of a `Consistent` scheduler holds the tasks that are `InHand` and nothing else. -/
theorem Consistent.get?_registry_iff (hs : s.Consistent) (id : String) (r : TaskRef) :
    s.registry.get? id = some r ↔ ∃ t, s.InHand r t ∧ t.id = id := by
  constructor
  · intro hget
    obtain ⟨t, ht, hid, hflags⟩ := hs.listed id r hget
    exact ⟨t, ⟨ht, hflags⟩, hid⟩
  · rintro ⟨t, ⟨ht, hregistered, hreleased⟩, rfl⟩
    exact hs.enrolled r t ht hregistered hreleased

/-- In a `Consistent` scheduler `releaseTask` takes away the entry of the task itself and no other,
although it goes by the id. -/
theorem Consistent.get?_releaseTask (hs : s.Consistent) (r : TaskRef) (id : String) :
    (s.releaseTask r).2.registry.get? id =
      if s.registry.get? id = some r then none else s.registry.get? id := by
  cases ht : s.task? r with
  | none =>
    have hother : s.registry.get? id ≠ some r := by
      intro hget
      obtain ⟨t, ⟨ht', -⟩, -⟩ := (hs.get?_registry_iff id r).1 hget
      exact absurd (ht.symm.trans ht') (by simp)
    rw [if_neg hother, releaseTask, ht]
  | some t =>
    have hregistry : (s.releaseTask r).2.registry =
        if !t.released && t.registered then s.registry.erase t.id else s.registry :=
      congrArg Core.registry (core_releaseTask ht)
    rw [hregistry]
    by_cases hflags : t.released = false ∧ t.registered = true
    · obtain ⟨hreleased, hregistered⟩ := hflags
      have hhere : s.registry.get? t.id = some r := hs.enrolled r t ht hregistered hreleased
      rw [hreleased, hregistered]
      by_cases hid : id = t.id
      · subst hid
        rw [if_pos hhere]
        exact FiniteMap.get?_erase_self _ _
      · have hother : s.registry.get? id ≠ some r := by
          intro hget
          obtain ⟨u, hu, hid', -⟩ := hs.listed id r hget
          obtain rfl : t = u := Option.some.inj (ht.symm.trans hu)
          exact hid hid'.symm
        rw [if_neg hother]
        exact FiniteMap.get?_erase_of_ne _ hid
    · have hother : s.registry.get? id ≠ some r := by
        intro hget
        obtain ⟨u, hu, -, hregistered, hreleased⟩ := hs.listed id r hget
        obtain rfl : t = u := Option.some.inj (ht.symm.trans hu)
        exact hflags ⟨hreleased, hregistered⟩
      have hkept : ¬ (!t.released && t.registered) = true := by
        simpa using hflags
      rw [if_neg hother, if_neg hkept]

/-- In a `Consistent` scheduler a popped task that goes on was registered if its id was free, and
only then. -/
theorem Consistent.registered_iff [TaskQueue β] (hs : s.Consistent) (m : Move η) {t t' : Task η}
    (ht : s.task? r = some t) (hp : t.phase = .popped) (ht' : (s.move m).task? r = some t')
    (hgone : t'.phase ≠ .popped) : t'.registered = true ↔ s.registry.get? t.id = none := by
  obtain ⟨u, hu, hturn⟩ := (turns_move hs.tidy.tracked m).old r t ht
  obtain rfl : t' = u := Option.some.inj (ht'.symm.trans hu)
  have hunregistered : t.registered = false :=
    (hs.lawful t (List.mem_of_getElem? ht)).popped hp
  cases hturn with
  | enroll _ hn =>
    have hfree : s.registry.get? t.id = none := by
      rw [← Option.not_isSome_iff_eq_none]
      exact Bool.eq_false_iff.1 hn
    exact ⟨fun _ => hfree, fun _ => rfl⟩
  | reject _ hn =>
    have htaken : s.registry.get? t.id ≠ none := Option.isSome_iff_ne_none.1 hn
    exact ⟨fun hregistered => absurd (hunregistered.symm.trans hregistered) (by simp),
      fun hfree => absurd hfree htaken⟩
  | same | cancel | mark | drop => exact absurd hp hgone
  | take h | spawn h | skip h | arm _ h | start h | refuse h | countStart h | gaugeStart h
  | lookUp h | lack h | enter h | leave h | returned h | broke h | called h | stop h | countStop h
  | gaugeStop h | record h | report h | release h =>
    exact absurd (hp.symm.trans h) (by simp)

/-! ### Canceled tasks in the registry -/

/-- A task in hand that is canceled. -/
def Halved (s : Scheduler β η) (r : TaskRef) : Prop := ∃ t, s.InHand r t ∧ t.status = .canceled

/-- After `dropCanceled`, the second half of a cancelation, the task is not `Halved`. -/
theorem not_halved_dropCanceled (s : Scheduler β η) (r : TaskRef) :
    ¬ (s.dropCanceled r).Halved r := by
  rintro ⟨t', ⟨ht', -, hreleased⟩, hcanceled⟩
  unfold dropCanceled at ht'
  split at ht'
  next hany =>
    obtain ⟨t, ht, -⟩ := (Option.any_eq_true _ _).1 hany
    have hlist : s.tasks[r]? = some t := ht
    rw [task?, tasks_releaseTask ht, List.getElem?_modify, hlist] at ht'
    obtain rfl : ({ t with released := true } : Task η) = t' := by simpa using ht'
    exact absurd hreleased (by simp)
  next hany =>
    apply hany
    rw [ht']
    exact decide_eq_true hcanceled

/-- In a `Consistent` scheduler a task is `Halved` after a move only if the move has marked it, or
if it was so before and the move does not drop it. -/
theorem Consistent.halved_move [TaskQueue β] (hs : s.Consistent) (h : (s.move m).Halved r) :
    m = .markCanceled r ∨ (s.Halved r ∧ m ≠ .dropCanceled r) := by
  by_cases hdrop : m = .dropCanceled r
  · subst hdrop
    exact absurd h (s.not_halved_dropCanceled r)
  obtain ⟨t', ⟨ht', hregistered, hreleased⟩, hcanceled⟩ := h
  have hturns := turns_move hs.tidy.tracked m
  cases ht : s.task? r with
  | none =>
    obtain ⟨p, rfl⟩ := hturns.new r t' ht ht'
    exact absurd hcanceled (by simp)
  | some t =>
    obtain ⟨u, hu, hturn⟩ := hturns.old r t ht
    obtain rfl : t' = u := Option.some.inj (ht'.symm.trans hu)
    have hbefore : t.registered = true → t.released = false → t.status = .canceled →
        m = .markCanceled r ∨ (s.Halved r ∧ m ≠ .dropCanceled r) := fun hreg hrel hst =>
      .inr ⟨⟨t, ⟨ht, hreg, hrel⟩, hst⟩, hdrop⟩
    cases hturn with
    | mark hm hfinal => exact .inl hm
    | enroll hp hn =>
      have hlawful := hs.lawful t (List.mem_of_getElem? ht)
      have hinit := hlawful.status (hlawful.popped hp)
      exact absurd (hinit.symm.trans hcanceled) (by simp)
    | start hp hinit => exact absurd hcanceled (by simp)
    | stop hp =>
      refine hbefore hregistered hreleased ?_
      dsimp only at hcanceled
      split at hcanceled
      next => exact absurd hcanceled (by simp)
      next => exact hcanceled
    | release hp => exact absurd hreleased (by simp)
    | cancel hm hfinal => exact absurd hreleased (by simp)
    | drop hm hs => exact absurd hm hdrop
    | same | reject | take | spawn | skip | arm | refuse | countStart | gaugeStart | lookUp | lack
    | enter | leave | returned | broke | called | countStop | gaugeStop | record | report =>
      exact hbefore hregistered hreleased hcanceled

/-- A task that is `Halved` after a possible history is so between the halves of its cancelation. -/
theorem Consistent.halved_afterMoves [TaskQueue β] (hs : s.Consistent) {moves : List (Move η)}
    (hmoves : s.Possible moves = true) (h : (s.afterMoves moves).Halved r) :
    (s.Halved r ∧ .dropCanceled r ∉ moves) ∨
      ∃ before after, moves = before ++ .markCanceled r :: after ∧ .dropCanceled r ∉ after := by
  induction moves generalizing s with
  | nil => exact .inl ⟨h, by simp⟩
  | cons m moves ih =>
    obtain ⟨hm, hrest⟩ := Bool.and_eq_true_iff.1 hmoves
    rcases ih (hs.move hm) hrest h with ⟨hhalved, hleft⟩ | ⟨before, after, rfl, hleft⟩
    · rcases hs.halved_move hhalved with rfl | ⟨hbefore, hne⟩
      · exact .inr ⟨[], moves, rfl, hleft⟩
      · exact .inl ⟨hbefore, by simp [Ne.symm hne, hleft]⟩
    · exact .inr ⟨m :: before, after, rfl, hleft⟩

/-! ### The registry along a history -/

/-- However the steps of the loops, the workers, the users and the clock follow each other, and
whatever ids the queue hands out: the registry finds under an id exactly the task with that id which
was registered and has not been released; a task that it finds is canceled only between the two
halves of one cancelation, so never where cancelations are single events; a release takes away the
entry of its own task and no other; a popped task is registered exactly if its id was free; and no
move touches more than one task and its entry. -/
theorem registry_holds_tasks_in_hand [TaskQueue β] (config : SchedulerConfig) (queue : β)
    (metrics : Option Metrics) (moves : List (Move η))
    (hmoves : (new config queue metrics).Possible moves = true) :
    let s := (new config queue metrics).afterMoves moves
    (∀ id r, s.registry.get? id = some r ↔ ∃ t, s.InHand r t ∧ t.id = id) ∧
    (∀ r t, s.InHand r t → t.status = .canceled →
      ∃ before after, moves = before ++ .markCanceled r :: after ∧ .dropCanceled r ∉ after) ∧
    (∀ history : List (Event η), moves = history.map .event →
      ∀ r t, s.InHand r t → t.status ≠ .canceled) ∧
    (∀ r id, (s.releaseTask r).2.registry.get? id =
      if s.registry.get? id = some r then none else s.registry.get? id) ∧
    (∀ m r t t', s.task? r = some t → t.phase = .popped → (s.move m).task? r = some t' →
      t'.phase ≠ .popped → (t'.registered = true ↔ s.registry.get? t.id = none)) ∧
    (∀ m, ∃ r, s.core.AgreeExcept (s.move m).core r) := by
  intro s
  have hnew := consistent_new (η := η) config queue metrics
  have hs : s.Consistent := hnew.afterMoves hmoves
  have hbetween : ∀ r t, s.InHand r t → t.status = .canceled →
      ∃ before after, moves = before ++ .markCanceled r :: after ∧ .dropCanceled r ∉ after := by
    intro r t hhand hcanceled
    rcases hnew.halved_afterMoves hmoves ⟨t, hhand, hcanceled⟩ with ⟨⟨t₀, ⟨ht₀, -⟩, -⟩, -⟩ | hmarked
    · exact absurd ht₀ (by simp [task?, new])
    · exact hmarked
  refine ⟨hs.get?_registry_iff, hbetween, ?_, hs.get?_releaseTask, ?_, ?_⟩
  · intro history hwhole r t hhand hcanceled
    obtain ⟨before, after, hmoves', -⟩ := hbetween r t hhand hcanceled
    have hmem : Move.markCanceled r ∈ history.map Move.event := by
      rw [← hwhole, hmoves']
      simp
    obtain ⟨e, -, he⟩ := List.mem_map.1 hmem
    exact absurd he (by simp)
  · intro m r t t' ht hp ht' hgone
    exact hs.registered_iff m ht hp ht' hgone
  · intro m
    exact (s.core_move m).agreeExcept hs.enrolled

/-- A queue that hands out one id three times. -/
def repeating : Simulation.FaultyQueue :=
  { popFaults := .ofList ((List.range 3).map fun n => (n + 1, .ok ⟨"7", "job", .null, none⟩)) }

/-- A task is canceled while its stage is executing.  Its id is popped and registered again, and
then popped a third time and rejected, before the worker of the first task comes to its end. -/
def repeatedHistory (wall : Timestamp) : List (Move Unit) :=
  let first : List (Event Unit) := [.register "job" ⟨"wait", ()⟩, .callRun, .ping 0, .stepPop 0,
    .pop 0 wall, .stepPop 0, .stepPop 0, .stepDispatch 0, .stepDispatch 0] ++ ownSteps 6
  let others : List (Event Unit) := [.stepPop 0, .pop 0 wall, .stepPop 0, .stepPop 0, .stepPop 0,
    .pop 0 wall, .stepPop 0, .stepTask 2, .report 2 wall, .stepTask 2]
  let last : List (Event Unit) :=
    .returnFromStage 0 (.ok .null) :: ownSteps 5 ++ [.report 0 wall, .stepTask 0]
  first.map .event ++ .markCanceled 0 :: .dropCanceled 0 :: (others ++ last).map .event

/-- `registry_holds_tasks_in_hand` over a queue that hands out the id "7" three times: the second
task is registered after the first was released, the third is rejected while the second is
`InHand`. -/
theorem registry_holds_tasks_in_hand_repeating :
    let start : Scheduler Simulation.FaultyQueue Unit := new .default repeating none
    let s := start.afterMoves (repeatedHistory .epoch)
    start.Possible (repeatedHistory .epoch) = true ∧
      (s.tasks.map fun t => (t.id, t.registered, t.isEnded)) =
        [("7", true, true), ("7", true, false), ("7", false, true)] ∧
      ∃ t, s.InHand 1 t ∧ t.id = "7" := by
  intro start s
  have hpossible : start.Possible (repeatedHistory .epoch) = true := by decide
  have hholds := registry_holds_tasks_in_hand .default repeating none (repeatedHistory .epoch)
    hpossible
  exact ⟨hpossible, by decide, (hholds.1 "7" 1).1 (by decide)⟩

end Scheduler

end TaskScheduler
