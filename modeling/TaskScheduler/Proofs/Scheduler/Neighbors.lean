import TaskScheduler.Proofs.Context.Ending
import TaskScheduler.Proofs.Scheduler.StageEntry

/-!
# Tasks do not disturb each other

All tasks of a scheduler share one registry, which goes by ids, and their tokens hang off one base
token.  What happens to one task could reach another in two ways: through the registry, if an entry
is erased under an id that two tasks have, and through the tree of tokens, if a token is canceled
that is not the task's own.

Neither happens.  The registry is dealt with by `Enrolled`: what a release erases is its own entry.
For the tree it is enough that the tokens of the tasks are different children of the base token
(`OwnTokens`): a cancelation goes downwards only, so that of one child reaches neither the base
token nor another child, nor anything derived from that.
-/

namespace TaskScheduler

variable {β η : Type}

/-! ### Tokens of tasks -/

/-- A `Task.Turn` leaves the token of the task as it is, or the worker gives the task the next
token. -/
theorem Task.Turn.token_cases {s : Scheduler β η} {m : Move η} {r : TaskRef} {t t' : Task η}
    (h : Task.Turn s m r t t') :
    t'.token = t.token ∨
      m = .event (.stepTask r) ∧ t.phase = .spawned ∧ t'.token = some s.contexts.tree.size := by
  cases h with
  | @arm hm hp c hc =>
    cases htoken : t.token with
    | some k => exact .inl rfl
    | none =>
      have hnew := (s.contexts.tree_childOf baseToken t.popped.timeout).1
      rw [hc] at hnew
      exact .inr ⟨hm, hp, congrArg some hnew⟩
  | _ => exact .inl rfl

namespace Scheduler

/-- The tokens of the tasks are children of the base token, and each task has its own. -/
structure OwnTokens (s : Scheduler β η) : Prop where
  /-- Children of canceled tokens are canceled. -/
  inherits : s.contexts.tree.Inherits
  /-- The base token is there. -/
  base : baseToken < s.contexts.tree.size
  /-- The token of a task is a child of the base token. -/
  child : ∀ {r : TaskRef} {t : Task η} {k : TokenId}, s.task? r = some t → t.token = some k →
    baseToken < k ∧ k < s.contexts.tree.size ∧ s.contexts.tree.parent? k = some baseToken
  /-- Tasks with one token are the same. -/
  own : ∀ {r r' : TaskRef} {t t' : Task η} {k : TokenId}, s.task? r = some t →
    s.task? r' = some t' → t.token = some k → t'.token = some k → r = r'

variable {s s' s'' : Scheduler β η} {m : Move η} {r r' : TaskRef} {t t' : Task η} {k j : TokenId}

namespace OwnTokens

/-- A token that a task has after a move was its token before, or was made in the move. -/
theorem token_cases (hturns : Turns s m s') (ht' : s'.task? r = some t') (hk : t'.token = some k) :
    (∃ t, s.task? r = some t ∧ t.token = some k) ∨
      ∃ t, s.task? r = some t ∧ m = .event (.stepTask r) ∧ t.phase = .spawned ∧
        k = s.contexts.tree.size := by
  cases ht : s.task? r with
  | none =>
    obtain ⟨p, rfl⟩ := hturns.new r t' ht ht'
    exact absurd hk (by simp)
  | some t =>
    obtain ⟨u, hu, hturn⟩ := hturns.old r t ht
    obtain rfl : t' = u := Option.some.inj (ht'.symm.trans hu)
    rcases hturn.token_cases with hsame | ⟨hm, hp, hnew⟩
    · exact .inl ⟨t, rfl, hsame.symm.trans hk⟩
    · exact .inr ⟨t, rfl, hm, hp, Option.some.inj (hk.symm.trans hnew)⟩

/-- Every move leaves each task its own token. -/
theorem move [TaskQueue β] (h : s.OwnTokens) (hturns : Turns s m (s.move m)) :
    (s.move m).OwnTokens where
  inherits := hturns.tree.inherits h.inherits
  base := hturns.tree.lt_size h.base
  child {r t' k} ht' hk := by
    rcases token_cases hturns ht' hk with ⟨t, ht, hold⟩ | ⟨t, ht, rfl, hp, rfl⟩
    · obtain ⟨hbase, hlt, hparent⟩ := h.child ht hold
      exact ⟨hbase, hturns.tree.lt_size hlt, (hturns.tree.parent? hlt).trans hparent⟩
    · have hgrows := grows_armed ht hp
      rw [(s.contexts.tree_childOf baseToken t.popped.timeout).2] at hgrows
      have hlt : s.contexts.tree.size < (s.contexts.tree.addChild baseToken).size :=
        TokenTree.size_lt_size_append _
      exact ⟨h.base, hgrows.lt_size hlt,
        (hgrows.parent? hlt).trans (TokenTree.parent?_append_size _)⟩
  own {r r' t t' k} ht ht' hk hk' := by
    rcases token_cases hturns ht hk with ⟨u, hu, hold⟩ | ⟨u, hu, hm, -, hnew⟩ <;>
      rcases token_cases hturns ht' hk' with ⟨u', hu', hold'⟩ | ⟨u', hu', hm', -, hnew'⟩
    · exact h.own hu hu' hold hold'
    · exact absurd hnew' (Nat.ne_of_lt (h.child hu hold).2.1)
    · exact absurd hnew (Nat.ne_of_lt (h.child hu' hold').2.1)
    · rw [hm] at hm'
      simpa using hm'

/-- The base token does not descend from the token of a task. -/
theorem not_descends_base (h : s.OwnTokens) (ht : s.task? r = some t) (hk : t.token = some k) :
    ¬ s.contexts.tree.Descends k baseToken :=
  fun hd => Nat.not_le_of_lt (h.child ht hk).1 hd.le

/-- The tokens of two different tasks do not descend from each other. -/
theorem not_descends (h : s.OwnTokens) (hne : r' ≠ r) (ht : s.task? r = some t)
    (hk : t.token = some k) (ht' : s.task? r' = some t') (hj : t'.token = some j) :
    ¬ s.contexts.tree.Descends k j := by
  intro hd
  rcases hd.eq_or_parent with rfl | ⟨p, hp, -, hdp⟩
  · exact hne (h.own ht' ht hj hk)
  · obtain rfl : baseToken = p := Option.some.inj ((h.child ht' hj).2.2.symm.trans hp)
    exact h.not_descends_base ht hk hdp

end OwnTokens

/-- A new scheduler has `OwnTokens` after every history. -/
theorem ownTokens_afterMoves [TaskQueue β] (config : SchedulerConfig) (queue : β)
    (metrics : Option Metrics) (moves : List (Move η)) :
    ((new config queue metrics).afterMoves moves).OwnTokens := by
  induction moves using List.reverseRecOn with
  | nil =>
    obtain ⟨hinherits, hbase⟩ := inherits_afterMoves (η := η) config queue metrics []
    exact ⟨hinherits, hbase, fun ht => absurd ht (by simp [afterMoves, task?, new]),
      fun ht => absurd ht (by simp [afterMoves, task?, new])⟩
  | append_singleton moves m ih =>
    rw [afterMoves_concat]
    exact ih.move (turns_move (tidy_afterMoves config queue metrics moves).tracked m)

/-! ### What is left alone -/

/-- Between two states nothing of another task is different: not the task itself, with its status,
its path, its error and its token, not its entries in the registry, and neither the end of its token
nor that of a token derived from that; and the base token is not canceled. -/
structure LeavesOthers (s s' : Scheduler β η) (r : TaskRef) : Prop where
  /-- The other tasks are the same, and are found under the same ids. -/
  core : s.core.AgreeExcept s'.core r
  /-- Tokens that descend from the token of another task are canceled only if they were before. -/
  tokens : ∀ {r' : TaskRef} {t : Task η} {k j : TokenId}, r' ≠ r → s.task? r' = some t →
    t.token = some k → s.contexts.tree.Descends k j →
      s'.contexts.isCanceled j = s.contexts.isCanceled j
  /-- The base token is canceled only if it was before. -/
  base : s'.contexts.isCanceled baseToken = s.contexts.isCanceled baseToken

namespace LeavesOthers

/-- Where `LeavesOthers` holds, `task?` finds another task as it was. -/
theorem task?_eq (h : s.LeavesOthers s' r) (hne : r' ≠ r) : s'.task? r' = s.task? r' :=
  (h.core r' hne).1

/-- Where `LeavesOthers` holds, the registry finds another task under the same ids. -/
theorem get?_registry_iff (h : s.LeavesOthers s' r) (hne : r' ≠ r) (id : String) :
    s'.registry.get? id = some r' ↔ s.registry.get? id = some r' :=
  (h.core r' hne).2 id

/-- A change of the task in one place that touches no token `LeavesOthers` alone. -/
theorem of_tree_eq (hcore : s.core.AgreeExcept s'.core r)
    (htree : s'.contexts.tree = s.contexts.tree) : s.LeavesOthers s' r := by
  have hsame : ∀ j, s'.contexts.isCanceled j = s.contexts.isCanceled j := fun j => by
    rw [ContextStore.isCanceled, ContextStore.isCanceled, htree]
  exact ⟨hcore, fun _ _ _ _ => hsame _, hsame _⟩

/-- A scheduler that stays as it is `LeavesOthers` alone. -/
protected theorem refl (s : Scheduler β η) (r : TaskRef) : s.LeavesOthers s r :=
  .of_tree_eq (Core.agreeExcept_of_eq rfl rfl r) rfl

/-- A change of the task in one place, and of nothing else, `LeavesOthers` alone. -/
theorem of_modify {f : Task η → Task η} (htasks : s'.tasks = s.tasks.modify r f)
    (hregistry : s'.registry = s.registry) (htree : s'.contexts.tree = s.contexts.tree) :
    s.LeavesOthers s' r :=
  .of_tree_eq (Core.agreeExcept_of_modify htasks hregistry) htree

/-- Canceling the token of a task `LeavesOthers` alone. -/
theorem of_cancel (h : s.OwnTokens) (hcore : s.core.AgreeExcept s'.core r) (ht : s.task? r = some t)
    (hk : t.token = some k) (htree : s'.contexts.tree = s.contexts.tree.cancel k) :
    s.LeavesOthers s' r := by
  have hlt : k < s.contexts.tree.size := (h.child ht hk).2.1
  have hsame : ∀ j, ¬ s.contexts.tree.Descends k j →
      s'.contexts.isCanceled j = s.contexts.isCanceled j := by
    intro j hno
    rw [ContextStore.isCanceled, htree]
    exact TokenTree.isCanceled_cancel_of_not_descends h.inherits hlt hno
  refine ⟨hcore, fun hne ht' hk' hj => hsame _ fun hd => ?_, hsame _ (h.not_descends_base ht hk)⟩
  -- a token under both would put the one task's token under the other's
  rcases hd.total hj with hdescends | hdescends
  · exact h.not_descends hne ht hk ht' hk' hdescends
  · exact h.not_descends hne.symm ht' hk' ht hk hdescends

/-- Making one more token for a task, and perhaps canceling it at once, `LeavesOthers` alone. -/
theorem of_addChild (h : s.OwnTokens) (hcore : s.core.AgreeExcept s'.core r) {p : TokenId}
    (htree : s'.contexts.tree = s.contexts.tree.addChild p ∨
      s'.contexts.tree = (s.contexts.tree.addChild p).cancel s.contexts.tree.size) :
    s.LeavesOthers s' r := by
  have hsame : ∀ j, j < s.contexts.tree.size →
      s'.contexts.isCanceled j = s.contexts.isCanceled j := by
    intro j hj
    have hold : (s.contexts.tree.addChild p).isCanceled j = s.contexts.tree.isCanceled j :=
      TokenTree.isCanceled_append _ hj
    rw [ContextStore.isCanceled]
    rcases htree with htree | htree <;> rw [htree]
    · exact hold
    · have hinherits := (s.contexts.tree.grows_addChild p).inherits h.inherits
      have hlt : s.contexts.tree.size < (s.contexts.tree.addChild p).size :=
        TokenTree.size_lt_size_append _
      have hno : ¬ (s.contexts.tree.addChild p).Descends s.contexts.tree.size j :=
        fun hd => Nat.not_le_of_lt hj hd.le
      exact (TokenTree.isCanceled_cancel_of_not_descends hinherits hlt hno).trans hold
  exact ⟨hcore, fun _ ht hk hd => hsame _ (hd.lt_size (h.child ht hk).2.1), hsame _ h.base⟩

/-- Two things that `LeavesOthers` alone do so one after the other, if the tree of tokens only
grows. -/
theorem trans (h : s.LeavesOthers s' r) (hgrows : s.contexts.tree.Grows s'.contexts.tree)
    (h' : s'.LeavesOthers s'' r) : s.LeavesOthers s'' r where
  core r' hne := by
    obtain ⟨htask, hentry⟩ := h.core r' hne
    obtain ⟨htask', hentry'⟩ := h'.core r' hne
    exact ⟨htask'.trans htask, fun id => (hentry' id).trans (hentry id)⟩
  tokens {r' t k j} hne ht hk hd := by
    have ht' : s'.task? r' = some t := (h.task?_eq hne).trans ht
    exact (h'.tokens hne ht' hk (hgrows.descends hd)).trans (h.tokens hne ht hk hd)
  base := h'.base.trans h.base

end LeavesOthers

/-! ### What happens to one task -/

/-- A move is something that happens to one task.  Whoever cancels the task may do so in one piece
or in two. -/
inductive Befalls (s : Scheduler β η) (r : TaskRef) : Move η → Prop
  /-- It is canceled by its id. -/
  | cancelId {id : String} (h : s.registry.get? id = some r) (wall : Timestamp) :
    Befalls s r (.event (.cancel id wall))
  /-- It is canceled by somebody who holds it. -/
  | cancelTask : Befalls s r (.event (.cancelTask r))
  /-- It is marked as canceled. -/
  | mark : Befalls s r (.markCanceled r)
  /-- It was marked as canceled and is released. -/
  | drop : Befalls s r (.dropCanceled r)
  /-- Its deadline passes, and the timer of that deadline fires. -/
  | expire {t : Task η} {timer : Timer} (ht : s.task? r = some t)
    (hfirst : s.contexts.timers.find? (fun timer => timer.due ≤ s.now) = some timer)
    (hk : t.token = some timer.token) : Befalls s r (.event .fireTimer)
  /-- Its token is canceled, by a stage that was given its context or by a timer out of turn. -/
  | cancelToken {t : Task η} {k : TokenId} (ht : s.task? r = some t) (hk : t.token = some k) :
    Befalls s r (.event (.cancelToken k))
  /-- One of its stages returns, perhaps an error. -/
  | returned (o : Outcome) : Befalls s r (.event (.returnFromStage r o))
  /-- One of its stages breaks off. -/
  | broke (p : Payload) : Befalls s r (.event (.breakOff r p))
  /-- Its worker or its completion takes a step, up to the last one, which releases it. -/
  | work : Befalls s r (.event (.stepTask r))
  /-- Its report is handed over. -/
  | report (wall : Timestamp) : Befalls s r (.event (.report r wall))
  /-- It was just popped, and is rejected because another task has its id. -/
  | reject {i : Nat} {l : Loops} {t : Task η} (hl : s.loops? i = some l) (hp : l.pop = .holding r)
    (ht : s.task? r = some t) (hn : s.registry.contains t.id = true) :
    Befalls s r (.event (.stepPop i))

/-- A list of moves in which everything happens to one task. -/
def BefallsIn [TaskQueue β] (s : Scheduler β η) (r : TaskRef) : List (Move η) → Prop
  | [] => True
  | m :: moves => s.Befalls r m ∧ (s.move m).BefallsIn r moves

/-! ### One thing at a time -/

/-- A change of a task that keeps its token keeps `OwnTokens`. -/
theorem OwnTokens.modifyTask (h : s.OwnTokens) (r : TaskRef) {f : Task η → Task η}
    (hf : ∀ t, (f t).token = t.token) : (s.modifyTask r f).OwnTokens := by
  have hold : ∀ {r' : TaskRef} {t' : Task η}, (s.modifyTask r f).task? r' = some t' →
      ∃ t, s.task? r' = some t ∧ t.token = t'.token := by
    intro r' t' ht'
    rw [task?, Scheduler.modifyTask, List.getElem?_modify] at ht'
    obtain ⟨t, ht, rfl⟩ := Option.map_eq_some_iff.1 ht'
    refine ⟨t, ht, ?_⟩
    split
    next => exact (hf t).symm
    next => rfl
  refine ⟨h.inherits, h.base, fun ht' hk => ?_, fun ht' hu' hk hk' => ?_⟩
  · obtain ⟨t, ht, htoken⟩ := hold ht'
    exact h.child ht (htoken.trans hk)
  · obtain ⟨t, ht, htoken⟩ := hold ht'
    obtain ⟨u, hu, hutoken⟩ := hold hu'
    exact h.own ht hu (htoken.trans hk) (hutoken.trans hk')

namespace LeavesOthers

/-- The release of a task erases its own entry and cancels its own token only. -/
theorem releaseTask (h : s.OwnTokens) (he : Enrolled s.tasks s.registry) (r : TaskRef) :
    s.LeavesOthers (s.releaseTask r).2 r := by
  cases ht : s.task? r with
  | none =>
    have hsame : (s.releaseTask r).2 = s := by rw [Scheduler.releaseTask, ht]
    rw [hsame]
    exact .refl s r
  | some t =>
    have hcore : s.core.AgreeExcept (s.releaseTask r).2.core r := by
      rw [core_releaseTask ht]
      exact Core.agreeExcept_of_release he ht id rfl rfl
    rcases s.tree_releaseTask r with htree | ⟨t', k, ht', hk, htree⟩
    · exact .of_tree_eq hcore htree
    · exact .of_cancel h hcore ht' hk htree

/-- A cancelation of a task in one piece `LeavesOthers` alone. -/
theorem cancelTask (h : s.OwnTokens) (he : Enrolled s.tasks s.registry) (r : TaskRef) :
    s.LeavesOthers (s.cancelTask r) r := by
  unfold Scheduler.cancelTask
  split
  next => exact .refl s r
  next t ht =>
    split
    next => exact .refl s r
    next =>
      have hmark : s.LeavesOthers (s.modifyTask r fun t => { t with status := .canceled }) r :=
        .of_modify rfl rfl rfl
      have hown : (s.modifyTask r fun t => { t with status := .canceled }).OwnTokens :=
        h.modifyTask r fun _ => rfl
      have henrolled := he.modifyTask (r := r) (f := fun t => { t with status := .canceled })
        fun _ _ => ⟨rfl, rfl, rfl⟩
      exact hmark.trans .rfl (releaseTask hown henrolled r)

/-- A cancelation by an id under which the task is registered `LeavesOthers` alone. -/
theorem cancel [TaskQueue β] (h : s.OwnTokens) (he : Enrolled s.tasks s.registry) {id : String}
    (hid : s.registry.get? id = some r) (wall : Timestamp) :
    s.LeavesOthers (s.cancel id wall).2 r := by
  have hcancel : (s.cancel id wall).2 = s.cancelTask r := by
    unfold Scheduler.cancel
    rw [hid]
    dsimp only
    split <;> rfl
  rw [hcancel]
  exact cancelTask h he r

/-- The release of a task that was marked as canceled `LeavesOthers` alone. -/
theorem dropCanceled (h : s.OwnTokens) (he : Enrolled s.tasks s.registry) (r : TaskRef) :
    s.LeavesOthers (s.dropCanceled r) r := by
  unfold Scheduler.dropCanceled
  split
  next => exact releaseTask h he r
  next => exact .refl s r

/-- The timer of a task that fires `LeavesOthers` alone. -/
theorem fireTimer (h : s.OwnTokens) {timer : Timer} (ht : s.task? r = some t)
    (hfirst : s.contexts.timers.find? (fun timer => timer.due ≤ s.now) = some timer)
    (hk : t.token = some timer.token) : s.LeavesOthers s.fireTimer r := by
  have htree : s.fireTimer.contexts.tree = s.contexts.tree.cancel timer.token := by
    refine (s.contexts.tree_fireDue [] s.contexts.timers).trans ?_
    have hfirst' : s.contexts.timers.find? (fun timer => timer.due ≤ s.contexts.now) =
        some timer := hfirst
    rw [hfirst']
  exact .of_cancel h (Core.agreeExcept_of_eq rfl rfl r) ht hk htree

/-- A worker that makes the context of its run `LeavesOthers` alone. -/
theorem armWorker (h : s.OwnTokens) (r : TaskRef) : s.LeavesOthers (s.armWorker r) r := by
  unfold Scheduler.armWorker
  split
  next t ht =>
    split
    next hp =>
      obtain ⟨htoken, htree⟩ := s.contexts.tree_childOf baseToken t.popped.timeout
      generalize s.contexts.childOf baseToken t.popped.timeout = made at htoken htree
      obtain ⟨c, contexts⟩ := made
      refine of_addChild h (p := baseToken) ?_ ?_
      · dsimp only
        rw [core_setPhase, core_armTask, Core.modifyTask_modifyTask]
        exact Core.agreeExcept_of_modify rfl rfl
      · have harmed := ({ s with contexts := contexts }).tree_armTask r c.token
        rw [← htree, ← htoken]
        exact harmed
    next => exact .refl s r
  next => exact .refl s r

/-- A worker that starts its task, or finds it canceled, `LeavesOthers` alone. -/
theorem startWorker (s : Scheduler β η) (r : TaskRef) : s.LeavesOthers (s.startWorker r) r := by
  unfold Scheduler.startWorker
  split
  next t ht =>
    split
    next c hp =>
      unfold startTask
      rw [ht]
      dsimp only
      by_cases hs : t.status = .init
      · rw [if_pos hs]
        exact .of_modify (List.modify_modify_eq ..) rfl rfl
      · rw [if_neg hs]
        exact .of_modify rfl rfl rfl
    next => exact .refl s r
  next => exact .refl s r

/-- A worker that counts its task as started `LeavesOthers` alone. -/
theorem countStart (s : Scheduler β η) (r : TaskRef) : s.LeavesOthers (s.countStart r) r := by
  unfold Scheduler.countStart
  split
  next =>
    split
    next => exact .of_modify rfl rfl rfl
    next => exact .of_modify rfl rfl rfl
    next => exact .refl s r
  next => exact .refl s r

/-- A worker that looks up the pipeline of its task `LeavesOthers` alone. -/
theorem lookUpPipeline (s : Scheduler β η) (r : TaskRef) :
    s.LeavesOthers (s.lookUpPipeline r) r := by
  unfold Scheduler.lookUpPipeline
  split
  next =>
    split
    next => split <;> exact .of_modify rfl rfl rfl
    next => exact .refl s r
  next => exact .refl s r

/-- A worker that enters a stage or leaves the pipeline `LeavesOthers` alone. -/
theorem enterStage (s : Scheduler β η) (r : TaskRef) : s.LeavesOthers (s.enterStage r) r := by
  unfold Scheduler.enterStage
  split
  next =>
    split
    next =>
      split
      next => exact .of_modify rfl rfl rfl
      next => split <;> exact .of_modify rfl rfl rfl
    next => exact .refl s r
  next => exact .refl s r

/-- A stage of the task that returns `LeavesOthers` alone. -/
theorem returnFromStage (s : Scheduler β η) (r : TaskRef) (o : Outcome) :
    s.LeavesOthers (s.returnFromStage r o) r := by
  unfold Scheduler.returnFromStage
  split
  next =>
    split
    next => cases o <;> exact .of_modify rfl rfl rfl
    next => exact .refl s r
  next => exact .refl s r

/-- A stage of the task that breaks off `LeavesOthers` alone. -/
theorem breakOff (s : Scheduler β η) (r : TaskRef) (p : Payload) :
    s.LeavesOthers (s.breakOff r p) r := by
  unfold Scheduler.breakOff
  split
  next =>
    split
    next => exact .of_modify rfl rfl rfl
    next => exact .refl s r
  next => exact .refl s r

/-- A worker that finishes its task `LeavesOthers` alone. -/
theorem stopWorker (s : Scheduler β η) (r : TaskRef) : s.LeavesOthers (s.stopWorker r) r := by
  unfold Scheduler.stopWorker
  split
  next =>
    split
    next => exact .of_modify (List.modify_modify_eq ..) rfl rfl
    next => exact .refl s r
  next => exact .refl s r

/-- A worker that no longer counts its finished task `LeavesOthers` alone. -/
theorem countStop (s : Scheduler β η) (r : TaskRef) : s.LeavesOthers (s.countStop r) r := by
  unfold Scheduler.countStop
  split
  next =>
    split
    next => exact .of_modify rfl rfl rfl
    next => exact .of_modify rfl rfl rfl
    next => exact .refl s r
  next => exact .refl s r

/-- Recording the outcome of a task `LeavesOthers` alone. -/
theorem recordOutcome (s : Scheduler β η) (r : TaskRef) :
    s.LeavesOthers (s.recordOutcome r) r := by
  unfold Scheduler.recordOutcome
  split
  next =>
    split
    next => exact .of_modify rfl rfl rfl
    next => exact .refl s r
  next => exact .refl s r

/-- Handing over the report of a task `LeavesOthers` alone. -/
theorem sendReport [TaskQueue β] (s : Scheduler β η) (r : TaskRef) (wall : Timestamp) :
    s.LeavesOthers (s.sendReport r wall) r := by
  unfold Scheduler.sendReport
  split
  next =>
    split
    next => exact .of_modify rfl rfl rfl
    next => exact .refl s r
  next => exact .refl s r

/-- A task that ends `LeavesOthers` alone. -/
theorem endTask (h : s.OwnTokens) (he : Enrolled s.tasks s.registry) (r : TaskRef) :
    s.LeavesOthers (s.endTask r) r := by
  unfold Scheduler.endTask
  split
  next =>
    split
    next =>
      have hlast : (s.releaseTask r).2.LeavesOthers ((s.releaseTask r).2.setPhase r .ended) r :=
        .of_modify rfl rfl rfl
      exact (releaseTask h he r).trans (s.grows_releaseTask r) hlast
    next => exact .refl s r
  next => exact .refl s r

/-- A step of the worker or of the completion of a task `LeavesOthers` alone. -/
theorem stepTask (h : s.OwnTokens) (he : Enrolled s.tasks s.registry) (r : TaskRef) :
    s.LeavesOthers (s.stepTask r) r := by
  unfold Scheduler.stepTask
  split
  next =>
    split
    next => exact armWorker h r
    next => exact startWorker s r
    next => exact countStart s r
    next => exact lookUpPipeline s r
    next => exact enterStage s r
    next => exact stopWorker s r
    next => exact countStop s r
    next => exact recordOutcome s r
    next => exact endTask h he r
    next => exact .refl s r
  next => exact .refl s r

/-- A popping loop that rejects the task it holds `LeavesOthers` alone. -/
theorem stepPop {i : Nat} {l : Loops} (hl : s.loops? i = some l) (hp : l.pop = .holding r)
    (ht : s.task? r = some t) (hn : s.registry.contains t.id = true) :
    s.LeavesOthers (s.stepPop i) r := by
  unfold Scheduler.stepPop
  rw [hl]
  dsimp only
  rw [hp]
  dsimp only
  unfold takeIn
  rw [ht]
  dsimp only
  rw [if_pos hn]
  exact .of_modify rfl rfl rfl

end LeavesOthers

/-- A move that `Befalls` one task leaves the others alone. -/
theorem Befalls.leavesOthers [TaskQueue β] (h : s.Befalls r m) (hs : s.OwnTokens)
    (he : Enrolled s.tasks s.registry) : s.LeavesOthers (s.move m) r := by
  cases h with
  | cancelId hid wall => exact .cancel hs he hid wall
  | cancelTask => exact .cancelTask hs he r
  | mark => exact .of_modify rfl rfl rfl
  | drop => exact .dropCanceled hs he r
  | expire ht hfirst hk => exact .fireTimer hs ht hfirst hk
  | cancelToken ht hk => exact .of_cancel hs (Core.agreeExcept_of_eq rfl rfl r) ht hk rfl
  | returned o => exact .returnFromStage s r o
  | broke p => exact .breakOff s r p
  | work => exact .stepTask hs he r
  | report wall => exact .sendReport s r wall
  | reject hl hp ht hn => exact .stepPop hl hp ht hn

/-! ### Along a history -/

/-- The tasks of a new scheduler are `Enrolled` after every history. -/
theorem enrolled_afterMoves [TaskQueue β] (config : SchedulerConfig) (queue : β)
    (metrics : Option Metrics) (moves : List (Move η)) :
    Enrolled ((new config queue metrics).afterMoves moves).tasks
      ((new config queue metrics).afterMoves moves).registry :=
  afterMoves_induction (P := fun c => Enrolled c.tasks c.registry) Core.Step.enrolled _
    (by simp [Enrolled, core, new]) moves

/-- Moves that befall one task, one after the other along a history, leave the others alone. -/
theorem leavesOthers_afterMoves [TaskQueue β] (config : SchedulerConfig) (queue : β)
    (metrics : Option Metrics) (moves more : List (Move η)) (r : TaskRef)
    (h : ((new config queue metrics).afterMoves moves).BefallsIn r more) :
    ((new config queue metrics).afterMoves moves).LeavesOthers
      (((new config queue metrics).afterMoves moves).afterMoves more) r := by
  induction more generalizing moves with
  | nil => exact .refl _ r
  | cons m more ih =>
    obtain ⟨hfirst, hrest⟩ := h
    have hstep := hfirst.leavesOthers (ownTokens_afterMoves config queue metrics moves)
      (enrolled_afterMoves config queue metrics moves)
    have hgrows := (turns_move (tidy_afterMoves config queue metrics moves).tracked m).tree
    have hlater := ih (moves ++ [m])
    rw [afterMoves_concat] at hlater
    exact hstep.trans hgrows (hlater hrest)

/-- Tasks do not disturb each other.  However the steps of the loops, the workers, the users and the
clock have followed each other, and whatever ids the queue has handed out: when one task is
canceled, expires, returns from a stage or breaks off in it, is completed, reported and released, or
is rejected because its id is taken, then every other task stays as it was, with its status, its
path, its error and its token, it is found under the same ids, and its token and those derived from
it are canceled only if they were before, and so is the base token.  The same holds for any number
of such moves one after the other. -/
theorem others_undisturbed [TaskQueue β] (config : SchedulerConfig) (queue : β)
    (metrics : Option Metrics) (moves : List (Move η)) (r : TaskRef) :
    let s := (new config queue metrics).afterMoves moves
    (∀ m, s.Befalls r m → s.LeavesOthers (s.move m) r) ∧
      ∀ more, s.BefallsIn r more → s.LeavesOthers (s.afterMoves more) r := by
  intro s
  have hrun : ∀ more, s.BefallsIn r more → s.LeavesOthers (s.afterMoves more) r :=
    fun more => leavesOthers_afterMoves config queue metrics moves more r
  exact ⟨fun m hm => hrun [m] ⟨hm, trivial⟩, hrun⟩

/-- The moves with which a loop rejects a task. -/
def rejection (i : Nat) (r : TaskRef) (wall : Timestamp) : List (Move η) :=
  [.event (.stepPop i), .event (.stepTask r), .event (.report r wall), .event (.stepTask r)]

/-- The moves of `rejection` befall the task that is rejected. -/
theorem befallsIn_rejection [TaskQueue β] {i : Nat} {l : Loops} (hl : s.loops? i = some l)
    (hp : l.pop = .holding r) (ht : s.task? r = some t) (hn : s.registry.contains t.id = true)
    (wall : Timestamp) : s.BefallsIn r (rejection i r wall) :=
  ⟨.reject hl hp ht hn, .work, .report wall, .work, trivial⟩

/-- `others_undisturbed` at three tasks with one id: the second is registered, and the third is
rejected, reported and released. -/
theorem others_undisturbed_repeating :
    let s : Scheduler Simulation.FaultyQueue Unit :=
      (new .default repeating none).afterMoves ((repeatedHistory .epoch).take 23)
    let s' := s.afterMoves (rejection 0 2 .epoch)
    s.BefallsIn 2 (rejection 0 2 .epoch) ∧ s'.hasEnded 2 = true ∧
      s'.task? 1 = s.task? 1 ∧ s'.registry.get? "7" = some 1 := by
  intro s s'
  have htaken : ((s.task? 2).any fun t => s.registry.contains t.id) = true := by decide
  obtain ⟨t, ht, hn⟩ := (Option.any_eq_true _ _).1 htaken
  have hl : s.loops? 0 = some { pop := .holding 2, buffer := [1] } := by decide
  have hbefalls := befallsIn_rejection hl rfl ht hn .epoch
  have hended : s'.hasEnded 2 = true := by decide
  have hregistered : s.registry.get? "7" = some 1 := by decide
  have hothers := (others_undisturbed .default repeating none ((repeatedHistory .epoch).take 23)
    2).2 (rejection 0 2 .epoch) hbefalls
  have hne : (1 : TaskRef) ≠ 2 := by decide
  exact ⟨hbefalls, hended, hothers.task?_eq hne, (hothers.get?_registry_iff hne "7").2 hregistered⟩

end Scheduler

end TaskScheduler
