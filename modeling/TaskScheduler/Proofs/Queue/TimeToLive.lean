import TaskScheduler.Proofs.Queue.RedisView

/-!
# Times to live of tasks

The hash of a task gets a time to live from the two operations that end a task, `cancel` and
`report`, and from no other.  This holds in every store, whatever its keys hold.
-/

namespace TaskScheduler.RedisQueue

open Redis

variable {q : RedisQueue} {s : Store} {key : Bytes}

/-- A push leaves `ttl` of every key but the `queueKey`. -/
theorem ttl_push (e : Envelope) (priority : Int64) (hkey : key ≠ q.queueKey) :
    Store.ttl (q.push e priority s).2 key = Store.ttl s key := by
  unfold push
  split
  · rfl
  next n s₁ hincr =>
    have h₁ := Store.ttl_incr hincr key
    dsimp only
    split
    · exact h₁
    next s₂ hhset =>
      have h₂ := (Store.ttl_hset (List.cons_ne_nil _ _) hhset).2 key
      split
      · exact h₂.trans h₁
      next s₃ hzadd =>
        exact (Store.ttl_congr (Store.get?_zadd_of_ne hzadd hkey)).trans (h₂.trans h₁)

/-- `take` leaves `ttl` of every key but the `queueKey`. -/
theorem ttl_take (hkey : key ≠ q.queueKey) : Store.ttl (q.take s).2 key = Store.ttl s key := by
  have hscript : Store.ttl (q.popScript s).2 key = Store.ttl s key := by
    unfold popScript
    split
    · rfl
    · rfl
    next member s₁ hpop =>
      have h₁ := Store.ttl_congr (Store.get?_zpopmin_of_ne hpop hkey)
      split
      · exact h₁
      next n hnumber =>
        dsimp only
        split
        · exact h₁
        next data hhget =>
          split
          · exact h₁
          next s₂ hhset =>
            exact ((Store.ttl_hset (List.cons_ne_nil _ _) hhset).2 key).trans h₁
  rw [← hscript]
  unfold RedisQueue.take
  rcases q.popScript s with ⟨_ | _ | ⟨id, data⟩, s₁⟩
  · rfl
  · rfl
  · rfl

/-- `expire` right after fields were written at the key of a task sets its `ttl`, and no other. -/
theorem ttl_keep (id : String) {fields : List (Bytes × Bytes)} (hne : fields ≠ []) {s₁ s₂ : Store}
    (hhset : s.hset (q.taskKey id) fields = .ok s₁) {present : Int}
    (hexpire : s₁.expire present (q.taskKey id) q.ttlSecs = .ok s₂) (key : Bytes) :
    Store.ttl s₂ key = if key = q.taskKey id then some q.ttlSecs else Store.ttl s key := by
  obtain ⟨hthere, hkept⟩ := Store.ttl_hset hne hhset
  rw [Store.ttl_expire hexpire, hkept]
  by_cases hkey : key = q.taskKey id
  · rw [if_pos ⟨hkey, hthere⟩, if_pos hkey]
  · rw [if_neg (fun h => hkey h.1), if_neg hkey]

/-- A cancelation that answers no error sets the `ttl` of its task, and no other but perhaps that of
the `queueKey`. -/
theorem ttl_cancel {id : String} {now : Timestamp} (hok : (q.cancel id now s).1 = .ok ())
    (hkey : key ≠ q.queueKey) :
    Store.ttl (q.cancel id now s).2 key =
      if key = q.taskKey id then some q.ttlSecs else Store.ttl s key := by
  revert hok
  unfold cancel
  split
  · intro hok
    exact absurd hok (by simp)
  next n hread =>
    split
    · intro hok
      exact absurd hok (by simp)
    · intro hok
      exact absurd hok (by simp)
    next s₁ hzrem =>
      dsimp only
      split
      · intro hok
        exact absurd hok (by simp)
      next s₂ hhset =>
        split
        · intro hok
          exact absurd hok (by simp)
        next s₃ hexpire =>
          intro _
          rw [ttl_keep id (List.cons_ne_nil _ _) hhset hexpire,
            Store.ttl_congr (Store.get?_zrem_of_ne hzrem hkey)]

/-- A report that answers no error sets the `ttl` of its task, and no other. -/
theorem ttl_report {r : TaskReport} {now : Timestamp} (hok : (q.report r now s).1 = .ok ()) :
    Store.ttl (q.report r now s).2 key =
      if key = q.taskKey r.id then some q.ttlSecs else Store.ttl s key := by
  revert hok
  unfold report
  dsimp only
  split
  · intro hok
    exact absurd hok (by simp)
  · intro hok
    exact absurd hok (by simp)
  next s₁ s₂ hhset hexpire =>
    intro _
    rw [hhset] at hexpire
    simp only [hhset, hexpire]
    exact ttl_keep r.id (by simp) hhset hexpire key

end TaskScheduler.RedisQueue
