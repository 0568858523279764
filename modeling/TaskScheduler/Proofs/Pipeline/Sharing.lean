import TaskScheduler.Pipeline.Shared
import TaskScheduler.Proofs.Pipeline.Registration

/-!
# Sharing

In memory a table of pipelines shows what the plain table shows, and what was looked up stays as it
was.  The invariant is that no two types share a cell, and that the cell of a type counts the table
and everyone who holds it.  A cell that counts one is therefore held by the table alone, for one
type, and may be changed in place; a cell that counts more is left to the others.
-/

namespace TaskScheduler

variable {η : Type}

/-- `insert` adds its key at the end of the keys, unless it is there. -/
theorem FiniteMap.keys_insert {κ α : Type} [DecidableEq κ] (m : FiniteMap κ α) (k : κ) (v : α) :
    (m.insert k v).keys = if k ∈ m.keys then m.keys else m.keys ++ [k] := by
  obtain ⟨entries, nodup⟩ := m
  change (put k v entries).map Prod.fst =
    if k ∈ entries.map Prod.fst then entries.map Prod.fst else entries.map Prod.fst ++ [k]
  clear nodup
  induction entries with
  | nil => simp [put]
  | cons e rest ih =>
    unfold put
    by_cases h : e.1 = k
    · simp [h]
    · have hne : ¬ k = e.1 := Ne.symm h
      simp only [if_neg h, List.map_cons, ih, List.mem_cons, hne, false_or]
      by_cases hmem : k ∈ List.map Prod.fst rest <;> simp [hmem]

namespace TableCall

/-- The type of the handle that a call gives. -/
def handle? : TableCall η → Option String
  | .register taskType _ => some taskType
  | .append _ _ | .take _ | .release _ => none

/-- What a call registers, given the types of the handles that there are. -/
def registration? (handles : List String) : TableCall η → Option (String × Stage η)
  | .register taskType stage => some (taskType, stage)
  | .append i stage => handles[i]?.map fun taskType => (taskType, stage)
  | .take _ | .release _ => none

end TableCall

namespace SharedTable

/-- The cells are counted and kept apart. -/
structure Sound (t : SharedTable η) : Prop where
  /-- The cell of a type counts the table and everyone who holds it. -/
  counted : ∀ {taskType : String} {a : Nat}, t.addresses.get? taskType = some a →
    ∃ c, t.cells[a]? = some c ∧ c.holders = t.taken.count (some a) + 1
  /-- A cell belongs to one type. -/
  apart : ∀ {taskType other : String} {a : Nat}, t.addresses.get? taskType = some a →
    t.addresses.get? other = some a → other = taskType
  /-- What is held is a cell. -/
  taken_lt : ∀ {a : Nat}, some a ∈ t.taken → a < t.cells.length

/-- The empty table is `Sound`. -/
theorem sound_empty : Sound ({} : SharedTable η) where
  counted h := by cases h
  apart h := by cases h
  taken_lt h := absurd h List.not_mem_nil

/-- In a `Sound` table the cell of a type lies where there are cells. -/
theorem Sound.lt {t : SharedTable η} (h : t.Sound) {taskType : String} {a : Nat}
    (ha : t.addresses.get? taskType = some a) : a < t.cells.length := by
  obtain ⟨c, hc, -⟩ := h.counted ha
  exact (List.getElem?_eq_some_iff.1 hc).1

/-- What a registration makes of a table: the pipeline of one type, and nothing else that is
shown. -/
structure Registered (t t' : SharedTable η) (taskType : String) (p : Pipeline η) : Prop where
  /-- The cells stay counted. -/
  sound : t'.Sound
  /-- The type is among the keys. -/
  keys : t'.addresses.keys = if taskType ∈ t.addresses.keys then t.addresses.keys
    else t.addresses.keys ++ [taskType]
  /-- The type has the pipeline, and the other types have what they had. -/
  pipelines : ∀ other, t'.pipeline? other = if other = taskType then some p else t.pipeline? other
  /-- There are no other handles. -/
  handles : t'.handles = t.handles
  /-- Nothing is taken or let go. -/
  taken : t'.taken = t.taken
  /-- What is held is as it was. -/
  held : ∀ i, t'.held? i = t.held? i

/-- An address that someone holds is one of the list. -/
theorem mem_taken_of_join {t : SharedTable η} {i a : Nat} (h : t.taken[i]?.join = some a) :
    some a ∈ t.taken :=
  List.mem_of_getElem? (Option.join_eq_some_iff.1 h)

/-- What is `held?` is as it was if the cells are that are held. -/
theorem held?_congr {t t' : SharedTable η} (htaken : t'.taken = t.taken)
    (h : ∀ a, some a ∈ t.taken → t'.stages? a = t.stages? a) (i : Nat) :
    t'.held? i = t.held? i := by
  unfold held?
  rw [htaken]
  cases hi : t.taken[i]?.join with
  | none => rfl
  | some a => exact h a (mem_taken_of_join hi)

/-- In a `Sound` table a pipeline that the table alone holds is changed in place. -/
theorem Sound.change_unshared {t : SharedTable η} (h : t.Sound) {taskType : String} {a : Nat}
    (ha : t.addresses.get? taskType = some a) {c : PipelineCell η} (hc : t.cells[a]? = some c)
    (halone : c.holders = 1) (f : Pipeline η → Pipeline η) :
    Registered t (t.change taskType a f) taskType (f c.stages) := by
  have hchange : t.change taskType a f =
      { t with cells := t.cells.set a { c with stages := f c.stages } } := by
    unfold change
    rw [hc]
    exact if_pos halone
  have hlt := h.lt ha
  have hnot : some a ∉ t.taken := by
    obtain ⟨c', hc', hcount⟩ := h.counted ha
    obtain rfl := Option.some.inj (hc.symm.trans hc')
    exact List.count_eq_zero.1 (by omega)
  have hself : (t.cells.set a { c with stages := f c.stages })[a]? =
      some { c with stages := f c.stages } := List.getElem?_set_self hlt
  have hother : ∀ b, b ≠ a →
      (t.cells.set a { c with stages := f c.stages })[b]? = t.cells[b]? :=
    fun b hb => List.getElem?_set_ne (Ne.symm hb)
  rw [hchange]
  refine ⟨⟨fun {type b} hb => ?_, h.apart, fun hb => ?_⟩, ?_, fun other => ?_, rfl, rfl,
    held?_congr rfl fun b hb => ?_⟩
  · by_cases hba : b = a
    · subst hba
      obtain ⟨c', hc', hcount⟩ := h.counted hb
      obtain rfl := Option.some.inj (hc.symm.trans hc')
      exact ⟨_, hself, hcount⟩
    · obtain ⟨c', hc', hcount⟩ := h.counted hb
      exact ⟨c', (hother b hba).trans hc', hcount⟩
  · rw [List.length_set]
    exact h.taken_lt hb
  · have hmem : taskType ∈ t.addresses.keys := by
      by_contra hnone
      rw [← FiniteMap.get?_eq_none_iff, ha] at hnone
      cases hnone
    exact (if_pos hmem).symm
  · unfold pipeline? stages?
    by_cases hown : other = taskType
    · rw [if_pos hown, hown, ha, Option.bind_some, hself]
      rfl
    · rw [if_neg hown]
      cases hb : t.addresses.get? other with
      | none => rfl
      | some b =>
        have hba : b ≠ a := fun hba => hown (h.apart ha (hba ▸ hb))
        rw [Option.bind_some, Option.bind_some, hother b hba]
  · unfold stages?
    rw [hother b fun hba => hnot (hba ▸ hb)]

/-- In a `Sound` table a type may move to a new cell, whatever is counted in the one it leaves. -/
theorem Sound.move {t : SharedTable η} (h : t.Sound) (taskType : String)
    {cells : List (PipelineCell η)} (hlength : cells.length = t.cells.length)
    (hstages : ∀ b : Nat, cells[b]?.map PipelineCell.stages = t.stages? b)
    (hothers : ∀ b, t.addresses.get? taskType ≠ some b → cells[b]? = t.cells[b]?)
    (p : Pipeline η) :
    Registered t
      { t with
        cells := cells ++ [⟨p, 1⟩]
        addresses := t.addresses.insert taskType t.cells.length } taskType p := by
  have hold : ∀ b, b < t.cells.length → (cells ++ [⟨p, 1⟩])[b]? = cells[b]? :=
    fun b hb => List.getElem?_append_left (hlength ▸ hb)
  have hnew : (cells ++ [⟨p, 1⟩])[t.cells.length]? = some ⟨p, 1⟩ := by
    rw [← hlength, List.getElem?_concat_length]
  have hfresh : some t.cells.length ∉ t.taken := fun hmem => Nat.lt_irrefl _ (h.taken_lt hmem)
  refine ⟨⟨fun {type b} hb => ?_, fun {type other b} hb hb' => ?_, fun hb => ?_⟩,
    FiniteMap.keys_insert t.addresses taskType t.cells.length, fun other => ?_, rfl, rfl,
    held?_congr rfl fun b hb => ?_⟩
  · dsimp only at hb ⊢
    rw [FiniteMap.get?_insert] at hb
    split at hb
    next =>
      obtain rfl := Option.some.inj hb
      exact ⟨_, hnew, by rw [List.count_eq_zero.2 hfresh]⟩
    next hne =>
      obtain ⟨c, hc, hcount⟩ := h.counted hb
      refine ⟨c, ?_, hcount⟩
      rw [hold b (h.lt hb), hothers b fun ha => hne (h.apart ha hb), hc]
  · dsimp only at hb hb'
    rw [FiniteMap.get?_insert] at hb hb'
    -- the new cell is beyond all that were there
    split at hb
    next htype =>
      obtain rfl := Option.some.inj hb
      split at hb'
      next hother => exact hother.trans htype.symm
      next => exact absurd (h.lt hb') (Nat.lt_irrefl _)
    next htype =>
      split at hb'
      next =>
        obtain rfl := Option.some.inj hb'
        exact absurd (h.lt hb) (Nat.lt_irrefl _)
      next => exact h.apart hb hb'
  · have hlt := h.taken_lt hb
    simp only [List.length_append, List.length_singleton]
    omega
  · unfold pipeline?
    dsimp only
    rw [FiniteMap.get?_insert]
    split
    next => rw [Option.bind_some, stages?, hnew, Option.map_some]
    next =>
      cases hb : t.addresses.get? other with
      | none => rfl
      | some b => rw [Option.bind_some, Option.bind_some, ← hstages, stages?, hold b (h.lt hb)]
  · rw [← hstages, stages?, hold b (h.taken_lt hb)]

/-- In a `Sound` table a pipeline that others hold is copied, and the copy is changed. -/
theorem Sound.change_shared {t : SharedTable η} (h : t.Sound) {taskType : String} {a : Nat}
    (ha : t.addresses.get? taskType = some a) {c : PipelineCell η} (hc : t.cells[a]? = some c)
    (hshared : c.holders ≠ 1) (f : Pipeline η → Pipeline η) :
    Registered t (t.change taskType a f) taskType (f c.stages) := by
  have hchange : t.change taskType a f =
      { t with
        cells := t.cells.set a { c with holders := c.holders - 1 } ++ [⟨f c.stages, 1⟩]
        addresses := t.addresses.insert taskType t.cells.length } := by
    unfold change
    rw [hc]
    exact if_neg hshared
  have hother : ∀ b, b ≠ a →
      (t.cells.set a { c with holders := c.holders - 1 })[b]? = t.cells[b]? :=
    fun b hb => List.getElem?_set_ne (Ne.symm hb)
  rw [hchange]
  refine h.move taskType List.length_set (fun b => ?_) (fun b hb => ?_) (f c.stages)
  · unfold stages?
    by_cases hba : b = a
    · rw [hba, List.getElem?_set_self (h.lt ha), hc, Option.map_some, Option.map_some]
    · rw [hother b hba]
  · exact hother b fun hba => hb (hba ▸ ha)

/-- `change` puts what it makes of a pipeline in its place, whoever holds the old one. -/
theorem Sound.change {t : SharedTable η} (h : t.Sound) {taskType : String} {a : Nat}
    (ha : t.addresses.get? taskType = some a) {p : Pipeline η} (hp : t.stages? a = some p)
    (f : Pipeline η → Pipeline η) : Registered t (t.change taskType a f) taskType (f p) := by
  obtain ⟨c, hc, rfl⟩ := Option.map_eq_some_iff.1 hp
  by_cases halone : c.holders = 1
  · exact h.change_unshared ha hc halone f
  · exact h.change_shared ha hc halone f

/-- Two changes of one type, one after the other, are `Registered` as one. -/
theorem Registered.trans {t t' t'' : SharedTable η} {taskType : String} {p p' : Pipeline η}
    (h : Registered t t' taskType p) (h' : Registered t' t'' taskType p') :
    Registered t t'' taskType p' := by
  have hmem : taskType ∈ t'.addresses.keys := by
    rw [h.keys]
    split
    next hold => exact hold
    next => exact List.mem_append_right _ List.mem_cons_self
  refine ⟨h'.sound, ?_, fun other => ?_, h'.handles.trans h.handles, h'.taken.trans h.taken,
    fun i => (h'.held i).trans (h.held i)⟩
  · rw [h'.keys, if_pos hmem, h.keys]
  · rw [h'.pipelines, h.pipelines]
    split <;> rfl

/-- `register` puts a stage into the pipeline that its type has, or into an empty one. -/
theorem Sound.register {t : SharedTable η} (h : t.Sound) (taskType : String) (stage : Stage η) :
    Registered t (t.register taskType stage) taskType
      (Pipeline.upsert stage ((t.pipeline? taskType).getD [])) := by
  unfold SharedTable.register enter
  cases ha : t.addresses.get? taskType with
  | some a =>
    obtain ⟨c, hc, -⟩ := h.counted ha
    have hp : t.stages? a = some c.stages := congrArg (Option.map PipelineCell.stages) hc
    have hpipeline : t.pipeline? taskType = some c.stages := by
      rw [pipeline?, ha, Option.bind_some, hp]
    rw [hpipeline]
    exact h.change ha hp _
  | none =>
    -- the type gets an empty pipeline first, and that one is changed
    have hnone : t.pipeline? taskType = none := by rw [pipeline?, ha, Option.bind_none]
    have hentered := h.move taskType rfl (fun _ => rfl) (fun _ _ => rfl) []
    have haddress := FiniteMap.get?_insert_self t.addresses taskType t.cells.length
    have hempty := hentered.pipelines taskType
    rw [if_pos rfl, pipeline?, haddress, Option.bind_some] at hempty
    rw [hnone]
    exact hentered.trans (hentered.sound.change haddress hempty (Pipeline.upsert stage))

/-! ### Looking up and letting go -/

/-- `recount` changes no stages. -/
theorem stages?_recount (t : SharedTable η) (a : Nat) (f : Nat → Nat) (b : Nat) :
    (t.recount a f).stages? b = t.stages? b := by
  unfold stages? recount
  dsimp only
  rw [List.getElem?_modify]
  cases t.cells[b]? with
  | none => rfl
  | some c => by_cases h : a = b <;> simp [h]

/-- `recount` of a cell keeps the table `Sound`, together with the change of those who hold it. -/
theorem Sound.recount {t : SharedTable η} (h : t.Sound) {a : Nat} {f : Nat → Nat}
    {taken : List (Option Nat)} (hself : f (t.taken.count (some a) + 1) = taken.count (some a) + 1)
    (hothers : ∀ b, b ≠ a → taken.count (some b) = t.taken.count (some b))
    (hlt : ∀ b, some b ∈ taken → b < t.cells.length) :
    Sound { t.recount a f with taken := taken } := by
  refine ⟨fun {type b} hb => ?_, h.apart, fun hb => ?_⟩
  · obtain ⟨c, hc, hcount⟩ := h.counted hb
    have hcell : (t.cells.modify a fun c => { c with holders := f c.holders })[b]? =
        some (if a = b then { c with holders := f c.holders } else c) := by
      rw [List.getElem?_modify, hc]
      by_cases hab : a = b <;> simp [hab]
    refine ⟨_, hcell, ?_⟩
    by_cases hab : a = b
    · subst hab
      rw [if_pos rfl, hcount, hself]
    · rw [if_neg hab, hcount, hothers b (Ne.symm hab)]
  · have := hlt _ hb
    simpa [SharedTable.recount] using this

/-- `TableCall.take` of a type that has a pipeline holds its cell and counts it once more. -/
theorem call_take_of_some {t : SharedTable η} {taskType : String} {a : Nat}
    (ha : t.addresses.get? taskType = some a) :
    t.call (.take taskType) = { t.recount a (· + 1) with taken := t.taken ++ [some a] } := by
  unfold call
  dsimp only
  rw [ha]

/-- `TableCall.take` of a type that has no pipeline holds nothing. -/
theorem call_take_of_none {t : SharedTable η} {taskType : String}
    (ha : t.addresses.get? taskType = none) :
    t.call (.take taskType) = { t with taken := t.taken ++ [none] } := by
  unfold call
  dsimp only
  rw [ha]

/-- `TableCall.take` leaves every `pipeline?` as it is. -/
theorem pipeline?_take (t : SharedTable η) (taskType other : String) :
    (t.call (.take taskType)).pipeline? other = t.pipeline? other := by
  cases ha : t.addresses.get? taskType with
  | none => rw [call_take_of_none ha]; rfl
  | some a =>
    rw [call_take_of_some ha]
    exact Option.bind_congr fun b _ => t.stages?_recount a (· + 1) b

/-- `TableCall.release` leaves every `pipeline?` as it is. -/
theorem pipeline?_release (t : SharedTable η) (i : Nat) (other : String) :
    (t.call (.release i)).pipeline? other = t.pipeline? other := by
  unfold call
  dsimp only
  split
  next a _ => exact Option.bind_congr fun b _ => t.stages?_recount a (· - 1) b
  next => rfl

/-- `TableCall.take` holds what it looks up, and what was held before is held on. -/
theorem held?_take (t : SharedTable η) (taskType : String) (i : Nat) :
    (t.call (.take taskType)).held? i =
      if i = t.taken.length then t.pipeline? taskType else t.held? i := by
  have hlist : ∀ o : Option Nat, (t.taken ++ [o])[i]?.join =
      if i = t.taken.length then o else t.taken[i]?.join := by
    intro o
    rcases Nat.lt_trichotomy i t.taken.length with hlt | heq | hgt
    · rw [List.getElem?_append_left hlt, if_neg (Nat.ne_of_lt hlt)]
    · rw [heq, List.getElem?_concat_length, if_pos rfl, Option.join_some]
    · rw [List.getElem?_eq_none (by simp; omega), if_neg (Nat.ne_of_gt hgt),
        List.getElem?_eq_none (Nat.le_of_lt hgt)]
  unfold pipeline?
  cases ha : t.addresses.get? taskType with
  | none =>
    rw [call_take_of_none ha, held?, hlist]
    split <;> rfl
  | some a =>
    have hstages : stages? { t.recount a (· + 1) with taken := t.taken ++ [some a] } = t.stages? :=
      funext (t.stages?_recount a (· + 1))
    rw [call_take_of_some ha, held?, hstages, hlist]
    split <;> rfl

/-- `TableCall.release` lets go of one pipeline, and the rest is held on. -/
theorem held?_release (t : SharedTable η) (i j : Nat) :
    (t.call (.release i)).held? j = if j = i then none else t.held? j := by
  unfold call
  dsimp only
  split
  next a ha =>
    have hstages : stages? { t.recount a (· - 1) with taken := t.taken.set i none } = t.stages? :=
      funext (t.stages?_recount a (· - 1))
    have hlt : i < t.taken.length := (List.getElem?_eq_some_iff.1 ha).1
    unfold held?
    rw [hstages]
    dsimp only
    split
    next hji => rw [hji, List.getElem?_set_self hlt]; rfl
    next hji => rw [List.getElem?_set_ne (Ne.symm hji)]
  next hnone =>
    split
    next hji =>
      subst hji
      unfold held?
      cases hj : t.taken[j]?.join with
      | none => rfl
      | some a => exact absurd (Option.join_eq_some_iff.1 hj) (hnone a)
    next => rfl

/-- A table stays `Sound` when as many hold each cell as before. -/
theorem Sound.retake {t : SharedTable η} (h : t.Sound) {taken : List (Option Nat)}
    (hcount : ∀ a, taken.count (some a) = t.taken.count (some a)) :
    Sound { t with taken := taken } where
  counted ha := by
    obtain ⟨c, hc, hholders⟩ := h.counted ha
    exact ⟨c, hc, by rw [hcount, hholders]⟩
  apart := h.apart
  taken_lt {a} ha := by
    refine h.taken_lt (List.count_pos_iff.1 ?_)
    rw [← hcount]
    exact List.count_pos_iff.2 ha

/-- `TableCall.take` keeps a table `Sound`. -/
theorem Sound.take {t : SharedTable η} (h : t.Sound) (taskType : String) :
    (t.call (.take taskType)).Sound := by
  cases ha : t.addresses.get? taskType with
  | none =>
    rw [call_take_of_none ha]
    exact h.retake fun b => by simp
  | some a =>
    rw [call_take_of_some ha]
    refine h.recount (by simp) (fun b hb => ?_) fun b hb => ?_
    · have hne : ¬ a = b := Ne.symm hb
      simp [hne]
    · rcases List.mem_append.1 hb with hold | hnew
      · exact h.taken_lt hold
      · obtain rfl : b = a := by simpa using hnew
        exact h.lt ha

/-- `TableCall.release` keeps a table `Sound`. -/
theorem Sound.release {t : SharedTable η} (h : t.Sound) (i : Nat) :
    (t.call (.release i)).Sound := by
  unfold call
  dsimp only
  split
  next a ha =>
    obtain ⟨hlt, hget⟩ := List.getElem?_eq_some_iff.1 ha
    have hpos : 0 < t.taken.count (some a) := List.count_pos_iff.2 (List.mem_of_getElem? ha)
    refine h.recount ?_ (fun b hb => ?_) fun b hb => ?_
    · rw [List.count_set hlt, hget]
      simp
      omega
    · have hne : ¬ a = b := Ne.symm hb
      rw [List.count_set hlt, hget]
      simp [hne]
    · rcases List.mem_or_eq_of_mem_set hb with hold | hnew
      · exact h.taken_lt hold
      · cases hnew
  next => exact h

/-! ### Calls -/

/-- What a call makes of a table. -/
structure Called (t : SharedTable η) (c : TableCall η) (t' : SharedTable η) : Prop where
  /-- The cells stay counted. -/
  sound : t'.Sound
  /-- The handle that the call gives is added. -/
  handles : t'.handles = t.handles ++ c.handle?.toList
  /-- If something is registered, its type is among the keys. -/
  keys : t'.addresses.keys = (c.registration? t.handles).elim t.addresses.keys fun r =>
    if r.1 ∈ t.addresses.keys then t.addresses.keys else t.addresses.keys ++ [r.1]
  /-- If something is registered, it is in the pipeline of its type.  The other types have what they
  had. -/
  pipelines : ∀ other, t'.pipeline? other =
    (c.registration? t.handles).elim (t.pipeline? other) fun r =>
      if other = r.1 then some (Pipeline.upsert r.2 ((t.pipeline? r.1).getD []))
      else t.pipeline? other
  /-- Nothing that was looked up loses its place. -/
  taken : t.taken.length ≤ t'.taken.length
  /-- What is held is as it was, unless the call lets go of it. -/
  held : ∀ {i : Nat}, i < t.taken.length → c ≠ .release i → t'.held? i = t.held? i

/-- `TableCall.take` changes no addresses. -/
theorem addresses_take (t : SharedTable η) (taskType : String) :
    (t.call (.take taskType)).addresses = t.addresses := by
  unfold call
  dsimp only
  split <;> rfl

/-- `TableCall.release` changes no addresses. -/
theorem addresses_release (t : SharedTable η) (i : Nat) :
    (t.call (.release i)).addresses = t.addresses := by
  unfold call
  dsimp only
  split <;> rfl

/-- `TableCall.register` does to a `Sound` table what `Called` says. -/
theorem Sound.called_register {t : SharedTable η} (h : t.Sound) (taskType : String)
    (stage : Stage η) :
    Called t (.register taskType stage) (t.call (.register taskType stage)) := by
  have hregistered := h.register taskType stage
  obtain ⟨counted, apart, taken_lt⟩ := hregistered.sound
  -- the new handle is no part of what is counted
  exact ⟨⟨counted, apart, taken_lt⟩, rfl, hregistered.keys, hregistered.pipelines,
    Nat.le_of_eq (congrArg List.length hregistered.taken.symm), fun _ _ => hregistered.held _⟩

/-- `TableCall.append` does to a `Sound` table what `Called` says, whether or not there is the
handle. -/
theorem Sound.called_append {t : SharedTable η} (h : t.Sound) (i : Nat) (stage : Stage η) :
    Called t (.append i stage) (t.call (.append i stage)) := by
  have hhandle : ∀ l : List String, l = l ++ (TableCall.append i stage).handle?.toList :=
    fun l => (List.append_nil l).symm
  cases hat : t.handles[i]? with
  | none =>
    have hcall : t.call (.append i stage) = t := by
      unfold call
      dsimp only
      rw [hat]
    have hregistration : (TableCall.append i stage).registration? t.handles = none := by
      rw [TableCall.registration?, hat, Option.map_none]
    rw [hcall]
    refine ⟨h, hhandle _, ?_, fun other => ?_, Nat.le_refl _, fun _ _ => rfl⟩
    · rw [hregistration, Option.elim_none]
    · rw [hregistration, Option.elim_none]
  | some taskType =>
    have hcall : t.call (.append i stage) = t.register taskType stage := by
      unfold call
      dsimp only
      rw [hat]
    have hregistration : (TableCall.append i stage).registration? t.handles =
        some (taskType, stage) := by
      rw [TableCall.registration?, hat, Option.map_some]
    have hregistered := h.register taskType stage
    rw [hcall]
    refine ⟨hregistered.sound, hregistered.handles.trans (hhandle _), ?_, fun other => ?_,
      Nat.le_of_eq (congrArg List.length hregistered.taken.symm), fun _ _ => hregistered.held _⟩
    · rw [hregistration, Option.elim_some]
      exact hregistered.keys
    · rw [hregistration, Option.elim_some]
      exact hregistered.pipelines other

/-- `TableCall.take` does to a `Sound` table what `Called` says. -/
theorem Sound.called_take {t : SharedTable η} (h : t.Sound) (taskType : String) :
    Called t (.take taskType) (t.call (.take taskType)) := by
  refine ⟨h.take taskType, ?_, congrArg FiniteMap.keys (t.addresses_take taskType),
    t.pipeline?_take taskType, ?_, fun hi _ => ?_⟩
  · cases ha : t.addresses.get? taskType with
    | none => rw [call_take_of_none ha]; exact (List.append_nil _).symm
    | some a => rw [call_take_of_some ha]; exact (List.append_nil _).symm
  · cases ha : t.addresses.get? taskType with
    | none => rw [call_take_of_none ha]; simp
    | some a => rw [call_take_of_some ha]; simp
  · rw [held?_take, if_neg (Nat.ne_of_lt hi)]

/-- `TableCall.release` does to a `Sound` table what `Called` says. -/
theorem Sound.called_release {t : SharedTable η} (h : t.Sound) (i : Nat) :
    Called t (.release i) (t.call (.release i)) := by
  refine ⟨h.release i, ?_, congrArg FiniteMap.keys (t.addresses_release i),
    t.pipeline?_release i, ?_, fun {j} _ hne => ?_⟩
  · unfold SharedTable.call
    dsimp only
    split <;> exact (List.append_nil _).symm
  · unfold SharedTable.call
    dsimp only
    split <;> simp
  · have hji : j ≠ i := fun hji => hne (hji ▸ rfl)
    rw [held?_release, if_neg hji]

/-- Every call does to a `Sound` table what `Called` says. -/
theorem Sound.call {t : SharedTable η} (h : t.Sound) (c : TableCall η) : Called t c (t.call c) := by
  cases c with
  | register taskType stage => exact h.called_register taskType stage
  | append i stage => exact h.called_append i stage
  | take taskType => exact h.called_take taskType
  | release i => exact h.called_release i

end SharedTable

end TaskScheduler
