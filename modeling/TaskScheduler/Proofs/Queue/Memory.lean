import Mathlib.Data.List.Nodup
import TaskScheduler.Proofs.Text.Hex
import TaskScheduler.Queue.Memory

/-!
# The queue in memory is well formed

The places in the order and the bodies by id are two views of the same tasks: every place has a body
under the id of its push, and every body has its place.  The operations keep this.
-/

namespace TaskScheduler.MemoryQueue

variable {m : MemoryQueue}

/-- `idOf` gives different pushes different ids. -/
theorem idOf_injective : Function.Injective idOf := Hex.ofList_digits_injective

/-- The order and the bodies belong to the same tasks. -/
structure WellFormed (m : MemoryQueue) : Prop where
  /-- A queued task has the id of its push. -/
  ids : ∀ o ∈ m.order, o.2 = idOf o.1.seq ∧ 1 ≤ o.1.seq ∧ o.1.seq ≤ m.seq
  /-- No two queued tasks have one push. -/
  distinct : (m.order.map fun o => o.1.seq).Nodup
  /-- A queued task has a body. -/
  bodies : ∀ o ∈ m.order, ∃ e, m.queued.get? o.2 = some (o.1, e)
  /-- A body belongs to a queued task. -/
  placed : ∀ {id key e}, m.queued.get? id = some (key, e) → (key, id) ∈ m.order

/-- An empty queue is `WellFormed`. -/
theorem WellFormed.empty : WellFormed {} where
  ids := by simp
  distinct := List.nodup_nil
  bodies := by simp
  placed h := absurd h (by simp [FiniteMap.get?_empty])

/-- In a `WellFormed` queue two places of one push are one place. -/
theorem WellFormed.eq_of_seq (h : m.WellFormed) {o o' : QueueKey × String} (ho : o ∈ m.order)
    (ho' : o' ∈ m.order) (hseq : o.1.seq = o'.1.seq) : o = o' :=
  List.inj_on_of_nodup_map h.distinct ho ho' hseq

/-- Leaving out all places of a push leaves out exactly the one place that it has. -/
theorem WellFormed.filter_seq (h : m.WellFormed) {o : QueueKey × String} (ho : o ∈ m.order) :
    (m.order.filter fun x => x.1.seq ≠ o.1.seq) = m.order.filter fun x => x.1 ≠ o.1 := by
  refine List.filter_congr fun x hx => ?_
  have hiff : x.1.seq = o.1.seq ↔ x.1 = o.1 :=
    ⟨fun hseq => congrArg Prod.fst (h.eq_of_seq hx ho hseq), fun hkey => congrArg _ hkey⟩
  simp only [ne_eq, hiff]

/-- In a `WellFormed` queue an id with a body is the one that `idOf` gave to its push. -/
theorem WellFormed.id_eq (h : m.WellFormed) {id : String} {key : QueueKey} {e : Envelope}
    (hget : m.queued.get? id = some (key, e)) : id = idOf key.seq ∧ 1 ≤ key.seq ∧ key.seq ≤ m.seq :=
  h.ids _ (h.placed hget)

/-- An id that `idOf` has not given yet has no body. -/
theorem WellFormed.get?_fresh (h : m.WellFormed) {k : Nat} (hk : m.seq < k) :
    m.queued.get? (idOf k) = none := by
  cases hget : m.queued.get? (idOf k) with
  | none => rfl
  | some b =>
    obtain ⟨key, e⟩ := b
    obtain ⟨hid, -, hle⟩ := h.id_eq hget
    have := idOf_injective hid
    omega

/-- `insertOrdered` adds one place to the others. -/
theorem insertOrdered_perm (key : QueueKey) (id : String) (order : List (QueueKey × String)) :
    (insertOrdered key id order).Perm ((key, id) :: order) := by
  induction order with
  | nil => exact .refl _
  | cons o rest ih =>
    unfold insertOrdered
    split
    · exact .refl _
    · exact (ih.cons o).trans (.swap (key, id) o rest)

/-- The bodies after a push: the new one at the next id, and the others as before. -/
theorem get?_push (m : MemoryQueue) (e : Envelope) (priority : Int64) (id : String) :
    (m.push e priority).2.queued.get? id =
      if id = idOf (m.seq + 1) then some (⟨priority, m.seq + 1⟩, e) else m.queued.get? id :=
  FiniteMap.get?_insert _ _ _ _

/-- A push keeps the queue `WellFormed`. -/
theorem WellFormed.push (h : m.WellFormed) (e : Envelope) (priority : Int64) :
    (m.push e priority).2.WellFormed := by
  have hperm : (m.push e priority).2.order.Perm
      ((⟨priority, m.seq + 1⟩, idOf (m.seq + 1)) :: m.order) := insertOrdered_perm _ _ _
  constructor
  · intro o ho
    rcases List.mem_cons.1 (hperm.mem_iff.1 ho) with rfl | ho
    · exact ⟨rfl, Nat.succ_pos _, Nat.le_refl _⟩
    · obtain ⟨hid, hpos, hle⟩ := h.ids o ho
      exact ⟨hid, hpos, Nat.le_succ_of_le hle⟩
  · rw [(hperm.map fun o => o.1.seq).nodup_iff, List.map_cons, List.nodup_cons]
    refine ⟨?_, h.distinct⟩
    intro hmem
    obtain ⟨o, ho, hseq⟩ := List.mem_map.1 hmem
    have hle := (h.ids o ho).2.2
    dsimp only at hseq
    omega
  · intro o ho
    rw [get?_push]
    rcases List.mem_cons.1 (hperm.mem_iff.1 ho) with rfl | ho
    · exact ⟨e, if_pos rfl⟩
    · obtain ⟨e', hget⟩ := h.bodies o ho
      refine ⟨e', ?_⟩
      rw [if_neg, hget]
      intro hid
      rw [hid, h.get?_fresh (Nat.lt_succ_self _)] at hget
      exact absurd hget (by simp)
  · intro id key e' hget
    rw [get?_push] at hget
    rw [hperm.mem_iff]
    split at hget
    next hid =>
      rw [Option.some.injEq, Prod.mk.injEq] at hget
      rw [hid, ← hget.1]
      exact List.mem_cons_self
    next => exact List.mem_cons_of_mem _ (h.placed hget)

/-- Taking a place off the order together with its body keeps the queue `WellFormed`. -/
theorem WellFormed.erase (h : m.WellFormed) {o : QueueKey × String} (ho : o ∈ m.order)
    {m' : MemoryQueue} (hseq : m'.seq = m.seq)
    (horder : m'.order = m.order.filter fun x => x.1 ≠ o.1)
    (hqueued : m'.queued = m.queued.erase o.2) : m'.WellFormed := by
  have hkey : ∀ x ∈ m.order, x.1 ≠ o.1 ↔ x.2 ≠ o.2 := by
    intro x hx
    obtain ⟨hid, -⟩ := h.ids x hx
    obtain ⟨hid', -⟩ := h.ids o ho
    refine not_congr ⟨fun heq => ?_, fun heq => ?_⟩
    · rw [hid, hid', heq]
    · rw [h.eq_of_seq hx ho (idOf_injective (hid.symm.trans (heq.trans hid')))]
  constructor
  · intro x hx
    rw [horder] at hx
    rw [hseq]
    exact h.ids x (List.mem_of_mem_filter hx)
  · rw [horder]
    exact h.distinct.sublist (List.filter_sublist.map _)
  · intro x hx
    rw [horder, List.mem_filter, decide_eq_true_eq] at hx
    rw [hqueued, FiniteMap.get?_erase_of_ne _ ((hkey x hx.1).1 hx.2)]
    exact h.bodies x hx.1
  · intro id key e hget
    rw [hqueued, FiniteMap.get?_erase] at hget
    split at hget
    next => exact absurd hget (by simp)
    next hid =>
      have hmem := h.placed hget
      rw [horder, List.mem_filter, decide_eq_true_eq]
      exact ⟨hmem, (hkey _ hmem).2 hid⟩

/-- In a `WellFormed` queue the rest of the order is what remains without the first place. -/
theorem WellFormed.rest_eq (h : m.WellFormed) {o : QueueKey × String}
    {rest : List (QueueKey × String)} (horder : m.order = o :: rest) :
    rest = m.order.filter fun x => x.1 ≠ o.1 := by
  have hdistinct := h.distinct
  rw [horder, List.map_cons, List.nodup_cons] at hdistinct
  rw [horder, List.filter_cons_of_neg (by simp), eq_comm, List.filter_eq_self]
  intro x hx
  rw [decide_eq_true_eq]
  intro hkey
  exact hdistinct.1 (hkey ▸ List.mem_map_of_mem hx)

/-- A report keeps `WellFormed`, which looks at neither records nor reports. -/
theorem WellFormed.report (h : m.WellFormed) (r : TaskReport) (now : Timestamp) :
    (m.report r now).WellFormed where
  ids := h.ids
  distinct := h.distinct
  bodies := h.bodies
  placed := h.placed

/-! ### What `pop` and `cancel` do -/

/-- From an empty queue nothing is taken. -/
theorem pop_nil (h : m.order = []) : m.pop = (.error .empty, m) := by
  unfold pop
  rw [h]

/-- A pop takes the first place off together with its body, and hands out the task that
`Envelope.popped` makes of it. -/
theorem pop_cons {o : QueueKey × String} {rest : List (QueueKey × String)} (h : m.order = o :: rest)
    {e : Envelope} (hget : m.queued.get? o.2 = some (o.1, e)) :
    m.pop = (.ok (e.popped o.2), { m with order := rest, queued := m.queued.erase o.2 }) := by
  unfold pop
  rw [h]
  dsimp only
  rw [hget]

/-- The cancelation of an id without a body is answered with `notFound`. -/
theorem cancel_none {id : String} (h : m.queued.get? id = none) (now : Timestamp) :
    m.cancel id now = (.error (.notFound id), m) := by
  unfold cancel
  rw [h]

/-- The cancelation of an id with a body takes off its place and the body, and stores its
`canceledRecord`. -/
theorem cancel_some {id : String} {key : QueueKey} {e : Envelope}
    (h : m.queued.get? id = some (key, e)) (now : Timestamp) :
    m.cancel id now = (.ok (), { m with
      order := m.order.filter fun o => o.1 ≠ key
      queued := m.queued.erase id
      results := m.results.insert id (canceledRecord id e now) }) := by
  unfold cancel
  rw [h]

/-- A pop keeps the queue `WellFormed`. -/
theorem WellFormed.pop (h : m.WellFormed) : m.pop.2.WellFormed := by
  cases horder : m.order with
  | nil =>
    rw [pop_nil horder]
    exact h
  | cons o rest =>
    have ho : o ∈ m.order := horder ▸ List.mem_cons_self
    obtain ⟨e, hget⟩ := h.bodies o ho
    rw [pop_cons horder hget]
    exact h.erase ho rfl (h.rest_eq horder) rfl

/-- A cancelation keeps the queue `WellFormed`. -/
theorem WellFormed.cancel (h : m.WellFormed) (id : String) (now : Timestamp) :
    (m.cancel id now).2.WellFormed := by
  cases hget : m.queued.get? id with
  | none =>
    rw [cancel_none hget]
    exact h
  | some b =>
    obtain ⟨key, e⟩ := b
    rw [cancel_some hget]
    exact h.erase (h.placed hget) rfl rfl rfl

end TaskScheduler.MemoryQueue
