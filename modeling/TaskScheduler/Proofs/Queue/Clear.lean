import TaskScheduler.Proofs.Redis.Restriction
import TaskScheduler.Proofs.Text.Glob
import TaskScheduler.Queue.Redis

/-!
# Clearing a queue

`clear` puts the prefix of the queue into a glob pattern and deletes what a scan with this pattern
returns.  The prefix is not escaped.  So `clear` deletes what is under the prefix and nothing else
exactly when no character of the prefix is special in a pattern; with any other prefix there are
stores on which it leaves a key of its own or deletes a key of another application.
-/

namespace TaskScheduler

namespace Redis.Store

variable {own own' : Bytes → Bool} {s : Store}

/-! ### Stores without some keys -/

/-- Two tests that agree on the keys of a store give the same `restrict` of it. -/
theorem restrict_congr (h : ∀ key ∈ s.keys, own key = own' key) :
    s.restrict own = s.restrict own' := by
  refine FiniteMap.ext_entries (List.filter_congr fun e he => ?_)
  exact h e.1 (List.mem_map_of_mem he)

/-- To `restrict` a store by two tests, one after the other, keeps the keys that pass both. -/
theorem restrict_restrict (own own' : Bytes → Bool) (s : Store) :
    (s.restrict own).restrict own' = s.restrict fun key => own' key && own key :=
  FiniteMap.ext_entries List.filter_filter

/-- `del` leaves the keys that it is not given. -/
theorem del_eq_restrict (s : Store) (keys : List Bytes) :
    s.del keys = s.restrict fun key => key ∉ keys := by
  induction keys generalizing s with
  | nil =>
    refine FiniteMap.ext_entries (List.filter_eq_self.2 fun e _ => ?_).symm
    simp
  | cons k keys ih =>
    have herase : s.erase k = s.restrict fun key => key ≠ k := rfl
    unfold del at ih ⊢
    rw [List.foldl_cons, ih, herase, restrict_restrict]
    refine restrict_congr fun key _ => ?_
    simp [Bool.and_comm]

/-- `restrict` leaves the keys that pass the test. -/
theorem mem_keys_restrict {key : Bytes} :
    key ∈ (s.restrict own).keys ↔ key ∈ s.keys ∧ own key = true := by
  unfold restrict FiniteMap.keys FiniteMap.filter
  simp only [List.mem_map, List.mem_filter]
  constructor
  · rintro ⟨e, ⟨he, hown⟩, rfl⟩
    exact ⟨⟨e, he, rfl⟩, hown⟩
  · rintro ⟨⟨e, he, rfl⟩, hown⟩
    exact ⟨e, ⟨he, hown⟩, rfl⟩

/-- The names of the keys are texts. -/
def HasTextKeys (s : Store) : Prop := ∀ key ∈ s.keys, Bytes.IsUtf8 key

/-! ### Scans -/

/-- Remove the batches of a scan one after another. -/
def sweep (s : Store) (batches : List (List Bytes)) : Store := batches.foldl del s

/-- What a full scan with a pattern returns while its batches are removed: keys that match, and
among them every one that is there from the beginning to the end. -/
structure IsFullScan (pattern : Bytes) (s : Store) (batches : List (List Bytes)) : Prop where
  /-- Every key that is returned matches. -/
  sound : ∀ batch ∈ batches, ∀ key ∈ batch, Glob.isMatch pattern key = true
  /-- Every key that matches and exists throughout is returned. -/
  complete : ∀ key, Glob.isMatch pattern key = true →
    (∀ n, key ∈ (s.sweep (batches.take n)).keys) → ∃ batch ∈ batches, key ∈ batch

/-- A `sweep` leaves the keys that no batch names. -/
theorem sweep_eq_restrict (s : Store) (batches : List (List Bytes)) :
    s.sweep batches = s.restrict fun key => key ∉ batches.flatten := by
  rw [← del_eq_restrict]
  exact List.foldl_flatten.symm

/-- The `sweep` of a full scan removes exactly the keys that match, in whatever batches the scan
returns them. -/
theorem IsFullScan.sweep_eq {pattern : Bytes} {batches : List (List Bytes)}
    (h : IsFullScan pattern s batches) :
    s.sweep batches = s.restrict fun key => !Glob.isMatch pattern key := by
  rw [sweep_eq_restrict]
  refine restrict_congr fun key hkey => ?_
  rw [Bool.eq_iff_iff, decide_eq_true_eq, Bool.not_eq_true', List.mem_flatten]
  constructor
  · intro hnot
    refine Bool.eq_false_iff.2 fun hmatch => hnot ?_
    obtain ⟨batch, hbatch, hmem⟩ := h.complete key hmatch fun n => by
      rw [sweep_eq_restrict, mem_keys_restrict, decide_eq_true_eq, List.mem_flatten]
      refine ⟨hkey, ?_⟩
      rintro ⟨batch, hbatch, hmem⟩
      exact hnot ⟨batch, List.mem_of_mem_take hbatch, hmem⟩
    exact ⟨batch, hbatch, hmem⟩
  · rintro hmatch ⟨batch, hbatch, hmem⟩
    rw [h.sound batch hbatch key hmem] at hmatch
    cases hmatch

/-- One batch of all keys that match is a full scan (`IsFullScan`). -/
theorem isFullScan_singleton (pattern : Bytes) (s : Store) :
    IsFullScan pattern s [s.keys.filter (Glob.isMatch pattern)] where
  sound := by
    intro batch hbatch key hkey
    rw [List.mem_singleton.1 hbatch] at hkey
    exact (List.mem_filter.1 hkey).2
  complete key hmatch hthere :=
    ⟨_, List.mem_singleton_self _, List.mem_filter.2 ⟨hthere 0, hmatch⟩⟩

end Redis.Store

namespace RedisQueue

open Redis

variable {q : RedisQueue} {s : Store}

/-! ### What `clear` removes -/

/-- The key is not under the prefix of the queue. -/
def isForeign (q : RedisQueue) (key : Bytes) : Bool :=
  !(Bytes.ofString (q.config.keyPrefix ++ ":")).isPrefixOf key

/-- Among keys that are texts `clear` succeeds and removes those that match the `clearPattern`. -/
theorem clear_eq_restrict (q : RedisQueue) (hs : s.HasTextKeys) :
    q.clear s = (.ok (), s.restrict fun key => !Glob.isMatch q.clearPattern key) := by
  have htext : (s.keys.filter (Glob.isMatch q.clearPattern)).all
      (fun k => (Bytes.toString? k).isSome) = true :=
    List.all_eq_true.2 fun key hkey =>
      Bytes.isUtf8_iff_isSome.1 (hs key (List.mem_of_mem_filter hkey))
  have hsweep := (Store.isFullScan_singleton q.clearPattern s).sweep_eq
  unfold clear
  dsimp only
  rw [if_pos htext, ← hsweep]
  rfl

/-- What `clear` removes is under the prefix, and nothing else is, exactly when the `clearPattern`
agrees with the prefix on texts. -/
theorem clear_eq_restrict_iff (q : RedisQueue) :
    (∀ s, Store.HasTextKeys s → q.clear s = (.ok (), s.restrict q.isForeign)) ↔
      ∀ key, Bytes.IsUtf8 key → Glob.isMatch q.clearPattern key =
        (Bytes.ofString (q.config.keyPrefix ++ ":")).isPrefixOf key := by
  constructor
  · intro hexact key hkey
    -- a store with this key alone
    let s : Store := ⟨[(key, ⟨.string [], none⟩)], by simp⟩
    have hs : s.HasTextKeys := fun k hk => List.mem_singleton.1 hk ▸ hkey
    have hself : key ∈ s.keys := List.mem_singleton_self key
    have hsame := (Prod.mk.inj ((clear_eq_restrict q hs).symm.trans (hexact s hs))).2
    have hleft := congrArg (key ∈ FiniteMap.keys ·) hsame
    simp only [Store.mem_keys_restrict, hself, true_and, isForeign, Bool.not_eq_true',
      eq_iff_iff] at hleft
    exact Bool.eq_iff_iff.2 (by simpa using hleft.not)
  · intro hagree s hs
    rw [clear_eq_restrict q hs]
    refine congrArg (Prod.mk _) (Store.restrict_congr fun key hkey => ?_)
    rw [hagree key (hs key hkey)]
    rfl

/-- Among keys that are texts `clear` does what its loop does with any full scan.  It removes what
is under the prefix and nothing else, whatever the store holds, exactly when no character of the
prefix is special in a pattern. -/
theorem clear_exact_iff (q : RedisQueue) :
    (∀ s batches, Store.HasTextKeys s → Store.IsFullScan q.clearPattern s batches →
      q.clear s = (.ok (), s.sweep batches)) ∧
    ((∀ s, Store.HasTextKeys s → q.clear s = (.ok (), s.restrict q.isForeign)) ↔
      ∀ c ∈ q.config.keyPrefix.toList, c ∉ Glob.specialChars) := by
  refine ⟨fun s batches hs hscan => ?_, ?_⟩
  · rw [clear_eq_restrict q hs, hscan.sweep_eq]
  · rw [clear_eq_restrict_iff]
    exact Glob.isMatch_eq_isPrefixOf_iff q.config.keyPrefix

/-! ### A prefix with a star -/

/-- A client whose prefix ends with a star. -/
def starClient : RedisQueue := ⟨{ RedisConfig.default with keyPrefix := "a*" }⟩

/-- A store with one key, which belongs to another application. -/
def foreignStore : Store := Store.set .empty (Bytes.ofString "ab:x") (Bytes.ofString "1")

/-- The `clearPattern` of `starClient` matches the key in `foreignStore`. -/
theorem isMatch_clearPattern_starClient :
    Glob.isMatch starClient.clearPattern (Bytes.ofString "ab:x") = true := by
  have hpattern : starClient.clearPattern =
      Glob.byte 'a' :: Glob.byte '*' :: ([Glob.byte ':'] ++ [Glob.byte '*']) := by decide +kernel
  have htext : Bytes.ofString "ab:x" =
      Glob.byte 'a' :: ([Glob.byte 'b'] ++ [Glob.byte ':', Glob.byte 'x']) := by decide +kernel
  rw [hpattern, htext, Glob.isMatch_literal (by decide), beq_self_eq_true, Bool.true_and,
    Glob.isMatch_star_iff]
  exact ⟨_, _, rfl, (Glob.isMatch_append_star (by decide) _).trans (by decide)⟩

/-- The settings of `starClient` are valid, and its `clear` succeeds and removes the key of
`foreignStore`, which is not under its prefix. -/
theorem exists_clear_ne : ∃ (q : RedisQueue) (s : Store), q.config.validate = .ok () ∧
    s.HasTextKeys ∧ (q.clear s).1 = .ok () ∧ (q.clear s).2 ≠ s.restrict q.isForeign := by
  have htext : foreignStore.HasTextKeys := by
    intro key hkey
    obtain rfl : key = Bytes.ofString "ab:x" := List.mem_singleton.1 hkey
    exact Bytes.isUtf8_ofString _
  refine ⟨starClient, foreignStore, rfl, htext, ?_, fun heq => ?_⟩
  · rw [clear_eq_restrict _ htext]
  · rw [clear_eq_restrict _ htext] at heq
    have hkept : Bytes.ofString "ab:x" ∈ (foreignStore.restrict starClient.isForeign).keys :=
      Store.mem_keys_restrict.2 ⟨List.mem_singleton_self _, by decide +kernel⟩
    rw [← heq] at hkept
    have hnot := (Store.mem_keys_restrict.1 hkept).2
    rw [isMatch_clearPattern_starClient] at hnot
    cases hnot

end RedisQueue

end TaskScheduler
