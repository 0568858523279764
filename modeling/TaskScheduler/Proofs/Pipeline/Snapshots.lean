import TaskScheduler.Proofs.Pipeline.Sharing

/-!
# Rows of calls

What a table of pipelines shows after any row of registrations, look-ups and lettings go.  A
registration by a handle counts as one for the type of the registration that gave the handle, so a
row of calls is first read as a row of registrations.  The table in memory shows what the plain
table shows after these, and what was looked up on the way stays what it was then.
-/

namespace TaskScheduler

variable {η : Type}

namespace TableCall

/-- The types of the handles that a row of calls gives. -/
def handles (calls : List (TableCall η)) : List String := calls.filterMap handle?

/-- What a row of calls registers when there are handles before it. -/
def registrationsFrom (before : List String) : List (TableCall η) → List (String × Stage η)
  | [] => []
  | c :: calls =>
    (c.registration? before).toList ++ registrationsFrom (before ++ c.handle?.toList) calls

/-- What a row of calls registers. -/
def registrations (calls : List (TableCall η)) : List (String × Stage η) :=
  registrationsFrom [] calls

/-- One more call adds its own handle to the `handles`. -/
theorem handles_concat (calls : List (TableCall η)) (c : TableCall η) :
    handles (calls ++ [c]) = handles calls ++ c.handle?.toList := by
  unfold handles
  rw [List.filterMap_append]
  cases h : c.handle? <;> simp [h]

/-- One more call registers with the handles that the calls before it gave. -/
theorem registrationsFrom_concat (before : List String) (calls : List (TableCall η))
    (c : TableCall η) : registrationsFrom before (calls ++ [c]) =
      registrationsFrom before calls ++ (c.registration? (before ++ handles calls)).toList := by
  induction calls generalizing before with
  | nil => simp [registrationsFrom, handles]
  | cons c' calls ih =>
    have hhandles : before ++ handles (c' :: calls) =
        before ++ c'.handle?.toList ++ handles calls := by
      unfold handles
      cases h : c'.handle? <;> simp [h]
    rw [List.cons_append, registrationsFrom, registrationsFrom, ih, hhandles]
    simp only [List.append_assoc]

end TableCall

namespace PipelineTable

/-- The plain table after more registrations, first one first. -/
def registerEach (t : PipelineTable η) (registrations : List (String × Stage η)) :
    PipelineTable η := registrations.foldl (fun t r => t.register r.1 r.2) t

/-- The plain table after a row of registrations. -/
def ofRegistrations (registrations : List (String × Stage η)) : PipelineTable η :=
  registerEach .empty registrations

/-- The table `ofRegistrations` holds what was registered. -/
theorem isMadeOf_ofRegistrations (registrations : List (String × Stage η)) :
    (ofRegistrations registrations).IsMadeOf registrations := by
  induction registrations using List.reverseRecOn with
  | nil => exact isMadeOf_empty
  | append_singleton registrations r ih =>
    rw [ofRegistrations, registerEach, List.foldl_append]
    exact ih.register r

end PipelineTable

namespace SharedTable

open TableCall

/-- A table in memory shows what a plain table shows. -/
structure Shows (t : SharedTable η) (plain : PipelineTable η) : Prop where
  /-- The cells are counted and kept apart. -/
  sound : t.Sound
  /-- The types are the same, in the same order. -/
  keys : t.addresses.keys = plain.keys
  /-- The pipelines are the same. -/
  pipelines : ∀ taskType, t.pipeline? taskType = plain.get? taskType

/-- A table that `Shows` a plain one has its `taskTypes`. -/
theorem Shows.taskTypes {t : SharedTable η} {plain : PipelineTable η} (h : t.Shows plain) :
    t.taskTypes = plain.taskTypes := by
  unfold SharedTable.taskTypes PipelineTable.taskTypes
  rw [h.keys]

/-- After a call a table `Shows` what it did, and what the call registers, if anything. -/
theorem Shows.call {t : SharedTable η} {plain : PipelineTable η} (h : t.Shows plain)
    (c : TableCall η) :
    (t.call c).Shows (plain.registerEach (c.registration? t.handles).toList) := by
  have hcalled := h.sound.call c
  refine ⟨hcalled.sound, ?_, fun other => ?_⟩
  · rw [hcalled.keys, h.keys]
    cases c.registration? t.handles with
    | none => rfl
    | some r => exact (FiniteMap.keys_insert plain r.1 _).symm
  · rw [hcalled.pipelines]
    simp only [h.pipelines]
    cases c.registration? t.handles with
    | none => rfl
    | some r => exact (PipelineTable.get?_register plain r.1 other r.2).symm

/-- `after` a row of calls the last one is made of the table that the others leave. -/
theorem after_concat (calls : List (TableCall η)) (c : TableCall η) :
    after (calls ++ [c]) = (after calls).call c := by
  unfold after
  rw [List.foldl_append, List.foldl_cons, List.foldl_nil]

/-- `after` any row of calls there are the handles that it gave, and the table `Shows` what it
registered. -/
theorem shows_after (calls : List (TableCall η)) : (after calls).handles = TableCall.handles calls ∧
    (after calls).Shows (.ofRegistrations (registrations calls)) := by
  induction calls using List.reverseRecOn with
  | nil => exact ⟨rfl, sound_empty, rfl, fun _ => rfl⟩
  | append_singleton calls c ih =>
    obtain ⟨hhandles, hshows⟩ := ih
    have hcall := hshows.call c
    rw [hhandles] at hcall
    rw [after_concat, registrations, registrationsFrom_concat, handles_concat]
    refine ⟨?_, ?_⟩
    · rw [(hshows.sound.call c).handles, hhandles]
    · rw [PipelineTable.ofRegistrations, PipelineTable.registerEach, List.foldl_append]
      exact hcall

/-! ### Snapshots -/

/-- What is `held?` is held on through every row of calls that does not let go of it. -/
theorem Sound.held?_foldl {t : SharedTable η} (h : t.Sound) {i : Nat} (hi : i < t.taken.length)
    (later : List (TableCall η)) (hlater : TableCall.release i ∉ later) :
    (later.foldl SharedTable.call t).held? i = t.held? i := by
  induction later generalizing t with
  | nil => rfl
  | cons c later ih =>
    rw [List.mem_cons, not_or] at hlater
    have hcalled := h.call c
    rw [List.foldl_cons, ih hcalled.sound (Nat.lt_of_lt_of_le hi hcalled.taken) hlater.2,
      hcalled.held hi (Ne.symm hlater.1)]

/-- What was looked up stays `held?` as it was then, until it is let go. -/
theorem held?_after_take (calls later : List (TableCall η)) (taskType : String)
    (hlater : TableCall.release (after calls).taken.length ∉ later) :
    (after (calls ++ .take taskType :: later)).held? (after calls).taken.length =
      (after calls).pipeline? taskType := by
  have hsound := (shows_after calls).2.sound
  have htaken : ((after calls).call (.take taskType)).taken.length =
      (after calls).taken.length + 1 := by
    cases ha : (after calls).addresses.get? taskType with
    | none => rw [call_take_of_none ha, List.length_append, List.length_singleton]
    | some a => rw [call_take_of_some ha, List.length_append, List.length_singleton]
  have hsplit : after (calls ++ .take taskType :: later) =
      later.foldl SharedTable.call ((after calls).call (.take taskType)) := by
    rw [after, List.foldl_append, List.foldl_cons]
    rfl
  rw [hsplit, (hsound.take taskType).held?_foldl (by omega) later hlater, held?_take, if_pos rfl]

/-- A call changes the `pipeline?` of the type for which it registers, and of no other. -/
theorem pipeline?_after_concat (calls : List (TableCall η)) (c : TableCall η) {taskType : String}
    (hother : (c.registration? (TableCall.handles calls)).map Prod.fst ≠ some taskType) :
    (after (calls ++ [c])).pipeline? taskType = (after calls).pipeline? taskType := by
  obtain ⟨hhandles, hshows⟩ := shows_after calls
  rw [after_concat, (hshows.call c).pipelines, hshows.pipelines, hhandles]
  cases hr : c.registration? (TableCall.handles calls) with
  | none => rfl
  | some r =>
    have hne : taskType ≠ r.1 := fun heq => hother (by rw [hr, heq, Option.map_some])
    exact (PipelineTable.get?_register _ _ _ _).trans (if_neg hne)

/-- What a table of pipelines shows after any row of calls.  It shows what the plain table shows
after the registrations among the calls: a type has a pipeline if a stage was registered for it,
whose stages are its stage names in the order of their first registration, each once and with the
handler of its last registration.  The task types are listed in increasing order, a call changes no
other type than its own, and what was looked up stays what it was. -/
theorem after_calls (calls : List (TableCall η)) :
    (∀ taskType, (after calls).pipeline? taskType =
      (PipelineTable.ofRegistrations (registrations calls)).get? taskType) ∧
    (∀ taskType p, (after calls).pipeline? taskType = some p →
      p.IsMadeOf (stagesFor taskType (registrations calls))) ∧
    (∀ taskType, (after calls).pipeline? taskType = none ↔
      stagesFor taskType (registrations calls) = []) ∧
    (after calls).taskTypes.Pairwise (· < ·) ∧
    (∀ taskType, taskType ∈ (after calls).taskTypes ↔
      stagesFor taskType (registrations calls) ≠ []) ∧
    (∀ c taskType, (c.registration? (TableCall.handles calls)).map Prod.fst ≠ some taskType →
      (after (calls ++ [c])).pipeline? taskType = (after calls).pipeline? taskType) ∧
    (∀ taskType later, TableCall.release (after calls).taken.length ∉ later →
      (after (calls ++ .take taskType :: later)).held? (after calls).taken.length =
        (after calls).pipeline? taskType) := by
  have hshows := (shows_after calls).2
  have hmade := PipelineTable.isMadeOf_ofRegistrations (registrations calls)
  refine ⟨hshows.pipelines, fun taskType p hp => ?_, fun taskType => ?_, ?_, fun taskType => ?_,
    fun c taskType => pipeline?_after_concat calls c,
    fun taskType later => held?_after_take calls later taskType⟩
  · exact hmade.pipelines ((hshows.pipelines taskType).symm.trans hp)
  · rw [hshows.pipelines]
    exact hmade.absent
  · rw [hshows.taskTypes]
    exact PipelineTable.taskTypes_pairwise _
  · rw [hshows.taskTypes, PipelineTable.mem_taskTypes]
    exact not_congr hmade.absent

/-- A pipeline of one stage is looked up, gets a second stage through its handle, and has its first
stage replaced. -/
theorem after_calls_echo :
    (∀ p, (after [TableCall.register "echo" ⟨"parse", 1⟩, .append 0 ⟨"reply", 2⟩,
      .register "echo" ⟨"parse", 3⟩]).pipeline? "echo" = some p →
        p.IsMadeOf [⟨"parse", 1⟩, ⟨"reply", 2⟩, ⟨"parse", 3⟩]) ∧
    (after ([TableCall.register "echo" ⟨"parse", 1⟩, .append 0 ⟨"reply", 2⟩] ++
      [.register "sum" ⟨"add", 3⟩])).pipeline? "echo" = some [⟨"parse", 1⟩, ⟨"reply", 2⟩] ∧
    (after ([TableCall.register "echo" ⟨"parse", 1⟩] ++ .take "echo" ::
      [.append 0 ⟨"reply", 2⟩, .register "echo" ⟨"parse", 3⟩])).held? 0 = some [⟨"parse", 1⟩] := by
  refine ⟨fun p hp => (after_calls _).2.1 "echo" p hp, ?_, ?_⟩
  · exact ((after_calls _).2.2.2.2.2.1 _ "echo" (by decide)).trans (by decide)
  · exact ((after_calls _).2.2.2.2.2.2 "echo" _ (by decide)).trans (by decide)

end SharedTable

end TaskScheduler
