import TaskScheduler.Proofs.Queue.LastReport
import TaskScheduler.Proofs.Task.Account
import TaskScheduler.Proofs.Text.Utf8

/-!
# Tasks that are taken and not handed out

The script of `pop` takes a task off the queue and marks it as popped before the client looks at its
body.  A client that cannot read the body reports the task as failed, so that its id does not stay
popped.  But a body that is no text does not get that far: the reply is refused as a whole, the
client learns neither the id nor the body, and the task stays popped for good.
-/

namespace TaskScheduler

namespace RedisQueue

open Redis

variable {q : RedisQueue} {s s' : Store} {x : Scored} {rest : List Scored} {j k : Nat}
  {fields : FiniteMap Bytes Bytes} {id reason : String} {now later : Timestamp}

/-! ### Hashes of any bytes -/

/-- `IsText` says that whatever is found in a hash is UTF-8. -/
theorem isText_iff : IsText fields ↔ ∀ name value, fields.get? name = some value →
    Bytes.IsUtf8 name ∧ Bytes.IsUtf8 value := by
  constructor
  · intro h name value hget
    obtain ⟨a, b, hfield⟩ := h _ (FiniteMap.mem_of_find hget)
    obtain ⟨rfl, rfl⟩ := Prod.mk.inj hfield
    exact ⟨Bytes.isUtf8_ofString a, Bytes.isUtf8_ofString b⟩
  · rintro h ⟨name, value⟩ hmem
    obtain ⟨hname, hvalue⟩ := h name value (FiniteMap.find_of_mem fields.nodup hmem)
    obtain ⟨a, ha⟩ := Option.isSome_iff_exists.1 (Bytes.isUtf8_iff_isSome.1 hname)
    obtain ⟨b, hb⟩ := Option.isSome_iff_exists.1 (Bytes.isUtf8_iff_isSome.1 hvalue)
    rw [Bytes.toString?_eq_some_iff] at ha hb
    exact ⟨a, b, Prod.ext ha hb⟩

/-- Only what consists of texts is read by `textFields?`. -/
theorem areTexts_of_textFields? {l : List (Bytes × Bytes)} {texts : List (String × String)}
    (h : textFields? l = some texts) : AreTexts l := by
  induction l generalizing texts with
  | nil => exact List.forall_mem_nil _
  | cons e l ih =>
    unfold textFields? at h
    split at h
    next a b texts' ha hb hrest =>
      rw [Bytes.toString?_eq_some_iff] at ha hb
      exact List.forall_mem_cons.2 ⟨⟨a, b, Prod.ext ha hb⟩, ih hrest⟩
    next => cases h

/-- After texts were written, `IsText` holds of a hash when it is made of texts at every other
name. -/
theorem isText_insertMany_iff {written : List (Bytes × Bytes)} (hw : AreTexts written) :
    IsText (fields.insertMany written) ↔ ∀ name value, fields.get? name = some value →
      name ∉ written.map Prod.fst → Bytes.IsUtf8 name ∧ Bytes.IsUtf8 value := by
  rw [isText_iff]
  constructor
  · intro h name value hget hname
    exact h name value ((FiniteMap.get?_insertMany_of_not_mem hname fields).trans hget)
  · intro h name value hget
    by_cases hname : name ∈ written.map Prod.fst
    · obtain ⟨v, hv, hfound⟩ := FiniteMap.exists_get?_insertMany hname fields
      obtain rfl := Option.some.inj (hfound.symm.trans hget)
      obtain ⟨a, b, hfield⟩ := hw _ hv
      obtain ⟨rfl, rfl⟩ := Prod.mk.inj hfield
      exact ⟨Bytes.isUtf8_ofString a, Bytes.isUtf8_ofString b⟩
    · rw [FiniteMap.get?_insertMany_of_not_mem hname] at hget
      exact h name value hget hname

/-! ### Taking from any store -/

/-- `memberNumber?` reads a number from its `memberText` as a script shows it, if it has at most 64
binary digits. -/
theorem memberNumber?_memberText_of_lt (hk : k < 2 ^ 64) :
    memberNumber? (memberText k) = some (scriptNumber k) := by
  have hascii : ∀ c ∈ Hex.padded k, c.toNat < 128 :=
    fun c hc => (Hex.isLower_of_mem_padded hc).toNat_lt
  unfold memberNumber? memberText scriptRead?
  rw [Bytes.map_ofNat_ofString hascii, Hex.readHex?_padded]
  dsimp only
  rw [if_neg (Nat.not_le.2 hk), if_neg (by decide)]

/-- `take` takes the first member off, marks its task as popped, and answers what `taken` makes of
the body. -/
theorem take_of_hash (hmembers : s.zset? q.queueKey = .ok (x :: rest))
    (hj : memberNumber? x.member = some j) (hfields : s.hash? (q.taskKey (idText j)) = .ok fields) :
    ∃ s', q.take s = (taken (idText j) (fields.get? (Bytes.ofString "data")), s') ∧
      s'.hash? (q.taskKey (idText j)) = .ok (fields.insertMany [field "state" "popped"]) ∧
      s'.zset? q.queueKey = .ok rest := by
  have hkey := taskKey_ne_queueKey (q := q) (idText j)
  have h₁ : (s.replace q.queueKey (.zset rest)).hash? (q.taskKey (idText j)) = .ok fields := by
    rw [Store.hash?_congr (Store.get?_replace_of_ne _ hkey), hfields]
  refine ⟨(s.replace q.queueKey (.zset rest)).replace (q.taskKey (idText j))
    (.hash (fields.insertMany [field "state" "popped"])), ?_, Store.hash?_replace _, ?_⟩
  · unfold RedisQueue.take popScript
    rw [Store.zpopmin_cons hmembers]
    dsimp only
    rw [hj]
    dsimp only
    unfold Store.hget
    rw [h₁]
    dsimp only
    rw [Store.hset_eq h₁]
  · rw [Store.zset?_congr (Store.get?_replace_of_ne _ hkey.symm), Store.zset?_replace]

/-! ### Giving up -/

/-- The names at which the report of a failure writes. -/
def failedNames : List Bytes :=
  ["state", "type", "duration_ms", "finished_at", "error"].map Bytes.ofString

/-- Beside what the report of a failure writes, the hash of a task holds texts, and a result that
can be read if there is one. -/
structure Salvageable (fields : FiniteMap Bytes Bytes) : Prop where
  /-- What stays is text. -/
  texts : ∀ name value, fields.get? name = some value → name ∉ failedNames →
    Bytes.IsUtf8 name ∧ Bytes.IsUtf8 value
  /-- A result that stays can be read. -/
  result : ∀ text, textAt fields "result" = some text → (Json.parse? text).isSome

/-- The task with the given id is given up: it is reported as failed for the given reason. -/
structure GivesUp (q : RedisQueue) (id reason : String) (now : Timestamp) (s : Store) : Prop where
  /-- The caller learns the id and the reason. -/
  answer : (q.pop now s).1 = .error (.corrupt id reason)
  /-- The hash says so. -/
  recorded : ∃ fields, (q.pop now s).2.hash? (q.taskKey id) = .ok fields ∧
    textAt fields "state" = some "failed" ∧ textAt fields "type" = some "unknown" ∧
    textAt fields "error" = some reason
  /-- The hash has a time to live. -/
  expires : Store.ttl (q.pop now s).2 (q.taskKey id) = some q.ttlSecs
  /-- Whenever it is asked, `get` shows a failed task. -/
  shown : ∀ later, ∃ record, q.get id later (q.pop now s).2 = .ok (some record) ∧
    record.id = id ∧ record.taskType = "unknown" ∧ record.status = .failed ∧
    record.error = some reason

/-- The hash of a task after the task was taken and reported as failed. -/
def givenUp (fields : FiniteMap Bytes Bytes) (id reason : String) (now : Timestamp) :
    FiniteMap Bytes Bytes :=
  (fields.insertMany [field "state" "popped"]).insertMany
    (reportedFields ((corruptReport id reason).toRecord now))

/-- `IsText` holds of a hash after `givenUp` when it is made of texts at all names but the
`failedNames`. -/
theorem isText_givenUp_iff : IsText (givenUp fields id reason now) ↔
    ∀ name value, fields.get? name = some value → name ∉ failedNames →
      Bytes.IsUtf8 name ∧ Bytes.IsUtf8 value := by
  have hnames : ∀ name, name ∉ (field "state" "popped" ::
      reportedFields ((corruptReport id reason).toRecord now)).map Prod.fst ↔
      name ∉ failedNames := by
    intro name
    simp [reportedFields, corruptReport, TaskReport.toRecord, TaskReport.error?,
      TaskReport.result?, Except.toOption, failedNames, field]
  have hwritten : AreTexts (field "state" "popped" ::
      reportedFields ((corruptReport id reason).toRecord now)) :=
    List.forall_mem_cons.2 ⟨⟨_, _, rfl⟩, areTexts_reportedFields _⟩
  exact (isText_insertMany_iff hwritten).trans
    (forall₃_congr fun name _ _ => imp_congr_left (hnames name))

/-- The `textAt` every name in the hash of a task that is given up. -/
theorem textAt_givenUp (fields : FiniteMap Bytes Bytes) (id reason : String) (now : Timestamp)
    (name : String) :
    textAt (givenUp fields id reason now) name =
      if name = "error" then some reason
      else if name = "finished_at" then some now.toOffsetText
      else if name = "duration_ms" then some (wordText Duration.zero.millis)
      else if name = "type" then some "unknown"
      else if name = "state" then some "failed" else textAt fields name := by
  have hold : textAt (fields.insertMany [field "state" "popped"]) name =
      if name = "state" then some "popped" else textAt fields name := by
    rw [textAt_insertMany_cons, textAt_insertMany_nil, textAt_insert]
  have herror : ((corruptReport id reason).toRecord now).error = some reason := rfl
  have hresult : ((corruptReport id reason).toRecord now).result = none := rfl
  have hstatus : (corruptReport id reason).status.name = "failed" := rfl
  have hfields : (corruptReport id reason).taskType = "unknown" ∧
      (corruptReport id reason).duration = .zero := ⟨rfl, rfl⟩
  unfold givenUp
  rw [textAt_reportedFields, herror, hresult, hstatus, hfields.1, hfields.2, hold]
  by_cases hstate : name = "state"
  · subst hstate
    rfl
  · simp only [Option.isSome_none, Option.isSome_some, and_true, Bool.false_eq_true, and_false,
      if_false, hstate]

/-- `get` shows a task that is given up as failed exactly when its hash was `Salvageable` and the
year has four digits. -/
theorem get_givenUp_iff (hfields : s.hash? (q.taskKey id) = .ok (givenUp fields id reason now)) :
    (∀ later, ∃ record, q.get id later s = .ok (some record) ∧ record.id = id ∧
      record.taskType = "unknown" ∧ record.status = .failed ∧ record.error = some reason) ↔
    Salvageable fields ∧ 0 ≤ now.date.year ∧ now.date.year ≤ 9999 := by
  have hresult : ∀ {texts : List (String × String)}, (∀ name, FiniteMap.find name texts =
      textAt (givenUp fields id reason now) name) →
      FiniteMap.find "result" texts = textAt fields "result" := by
    intro texts hfind
    rw [hfind, textAt_givenUp]
    rfl
  constructor
  · intro hshown
    obtain ⟨record, hget, -⟩ := hshown now
    unfold RedisQueue.get at hget
    rw [hfields] at hget
    dsimp only at hget
    cases htexts : textFields? (givenUp fields id reason now).entries with
    | none =>
      rw [htexts] at hget
      cases hget
    | some texts =>
      have htext : IsText (givenUp fields id reason now) := areTexts_of_textFields? htexts
      obtain ⟨texts', htexts', hfind⟩ := exists_textFields?_eq htext
      obtain rfl := Option.some.inj (htexts.symm.trans htexts')
      rw [htexts] at hget
      obtain ⟨hyear, hread, -⟩ :=
        (recordOf_reported_iff (r := corruptReport id reason) hfind).1 hget
      have hparse := (exists_resultOf_iff texts).1 ⟨_, hread⟩
      rw [hresult hfind] at hparse
      exact ⟨⟨isText_givenUp_iff.1 htext, hparse⟩, hyear⟩
  · rintro ⟨⟨hrest, hparse⟩, hyear⟩ later
    have htext : IsText (givenUp fields id reason now) := isText_givenUp_iff.2 hrest
    obtain ⟨texts, htexts, hfind⟩ := exists_textFields?_eq htext
    obtain ⟨v, hv⟩ := (exists_resultOf_iff texts).2 (by rwa [hresult hfind])
    have herror : FiniteMap.find "error" texts = some reason := by
      rw [hfind]
      exact (textAt_givenUp fields id reason now "error").trans (if_pos rfl)
    refine ⟨{ (corruptReport id reason).toRecord now with
      error := FiniteMap.find "error" texts, result := v }, ?_, rfl, rfl, rfl, herror⟩
    unfold RedisQueue.get
    rw [hfields]
    dsimp only
    rw [htexts]
    exact (recordOf_reported_iff (r := corruptReport id reason) hfind).2 ⟨hyear, hv, rfl⟩

/-- A report writes the `reportedFields` into whatever hash the task has, if the time to live is
accepted. -/
theorem report_of_hash (hfields : s.hash? (q.taskKey id) = .ok fields)
    (hsecs : q.ttlSecs ≤ Store.maxTtl now.millis) {r : TaskReport} (hid : r.id = id) :
    (q.report r now s).1 = .ok () ∧ (q.report r now s).2.hash? (q.taskKey id) =
      .ok (fields.insertMany (reportedFields (r.toRecord now))) := by
  subst hid
  have hhset := Store.hset_eq hfields (reportedFields (r.toRecord now))
  obtain ⟨s₂, hexpire, -, hself⟩ := Store.expire_ok hsecs (q.taskKey r.id)
    (s.replace (q.taskKey r.id) (.hash (fields.insertMany (reportedFields (r.toRecord now)))))
  rw [report_eq_keep hhset]
  unfold RedisQueue.keep
  rw [hexpire]
  exact ⟨rfl, (Store.hash?_of_value hself).trans (Store.hash?_replace _)⟩

/-- A pop that takes a task whose body cannot be read `GivesUp` exactly when the hash is
`Salvageable` and the year has four digits. -/
theorem givesUp_iff (htake : q.take s = (.error (.corrupt id reason), s'))
    (hfields : s'.hash? (q.taskKey id) = .ok (fields.insertMany [field "state" "popped"]))
    (hsecs : q.ttlSecs ≤ Store.maxTtl now.millis) :
    q.GivesUp id reason now s ↔ Salvageable fields ∧ 0 ≤ now.date.year ∧ now.date.year ≤ 9999 := by
  have hpop : q.pop now s =
      (.error (.corrupt id reason), (q.report (corruptReport id reason) now s').2) := by
    rw [pop_eq, htake]
  obtain ⟨hok, hgiven⟩ := report_of_hash hfields hsecs (r := corruptReport id reason) rfl
  rw [← get_givenUp_iff hgiven]
  constructor
  · intro h
    simpa only [hpop] using h.shown
  · intro hshown
    refine ⟨congrArg Prod.fst hpop, ?_, ?_, by simpa only [hpop] using hshown⟩
    · rw [hpop]
      refine ⟨_, hgiven, ?_, ?_, ?_⟩ <;> exact textAt_givenUp fields id reason now _
    · rw [hpop]
      exact (ttl_report hok).trans (if_pos rfl)

/-! ### What becomes of a task that is taken -/

/-- The task is taken, nobody learns of it, and its state stays popped. -/
structure Strands (q : RedisQueue) (id : String) (now : Timestamp) (s : Store) : Prop where
  /-- The task is not handed out. -/
  notHanded : ∀ task, (q.pop now s).1 ≠ .ok task
  /-- The task is not given up. -/
  notGivenUp : ∀ id reason, (q.pop now s).1 ≠ .error (.corrupt id reason)
  /-- The state stays popped. -/
  popped : (q.pop now s).2.hget (q.taskKey id) (Bytes.ofString "state") =
    .ok (some (Bytes.ofString "popped"))

/-- The pop hands out the task of the id with what the `data` field of its hash says: the type, the
payload and the timeout of the envelope that is read there. -/
def HandsOut (q : RedisQueue) (id : String) (now : Timestamp) (s : Store) : Prop :=
  ∃ body e task,
    s.hget (q.taskKey id) (Bytes.ofString "data") = .ok (some (Bytes.ofString body)) ∧
    Envelope.decode? body = some e ∧ (q.pop now s).1 = .ok task ∧ e.IsHandedOutAs id task

/-- A task that a pop `Strands` is neither handed out nor given up. -/
theorem Strands.not_settled (h : q.Strands id now s) :
    ¬ (q.HandsOut id now s ∨ ∃ reason, q.GivesUp id reason now s) := by
  rintro (⟨_, e, task, -, -, hok, -⟩ | ⟨reason, hgives⟩)
  · exact h.notHanded _ hok
  · exact h.notGivenUp id reason hgives.answer

/-- A task that the caller is told to be corrupt is settled exactly when the pop `GivesUp` it. -/
theorem settled_iff_givesUp (hanswer : (q.pop now s).1 = .error (.corrupt id reason)) :
    (q.HandsOut id now s ∨ ∃ reason, q.GivesUp id reason now s) ↔ q.GivesUp id reason now s := by
  constructor
  · rintro (⟨_, _, _, -, -, hok, -⟩ | ⟨reason', hgives⟩)
    · rw [hanswer] at hok
      cases hok
    · have hsame := hanswer.symm.trans hgives.answer
      simp only [Except.error.injEq, QueueError.corrupt.injEq, true_and] at hsame
      exact hsame ▸ hgives
  · exact fun h => .inr ⟨reason, h⟩

/-- A pop leaves the members that its first half `take` leaves. -/
theorem zset?_pop (h : (q.take s).2.zset? q.queueKey = .ok rest) (now : Timestamp) :
    (q.pop now s).2.zset? q.queueKey = .ok rest := by
  rw [pop_eq]
  split
  next id reason s' htake =>
    rw [htake] at h
    exact (Store.zset?_congr (get?_report_of_ne (taskKey_ne_queueKey id).symm)).trans h
  next => exact h

/-- What `taken` makes of a body: it is no text, or it is decoded, or it is a reason to give up. -/
theorem taken_cases (id : String) (data : Option Bytes) :
    (∃ bytes, data = some bytes ∧ ¬ Bytes.IsUtf8 bytes ∧
      taken id data = .error (.storeFailed StoreError.badReply.message)) ∨
    (∃ body e, data = some (Bytes.ofString body) ∧ Envelope.decode? body = some e ∧
      taken id data = .ok (e.popped id)) ∨
    ∃ reason, (∀ bytes, data = some bytes → Bytes.IsUtf8 bytes) ∧
      (data.bind Bytes.toString?).bind Envelope.decode? = none ∧
      taken id data = .error (.corrupt id reason) := by
  cases data with
  | none => exact .inr (.inr ⟨_, by simp, rfl, rfl⟩)
  | some bytes =>
    unfold taken
    dsimp only
    cases htext : Bytes.toString? bytes with
    | none =>
      have hnot : ¬ Bytes.IsUtf8 bytes := by simp [Bytes.isUtf8_iff_isSome, htext]
      exact .inl ⟨bytes, rfl, hnot, rfl⟩
    | some body =>
      obtain rfl := Bytes.toString?_eq_some_iff.1 htext
      dsimp only
      cases hdecode : Envelope.decode? body with
      | none =>
        refine .inr (.inr ⟨_, ?_, ?_, rfl⟩)
        · intro bytes hbytes
          rw [← Option.some.inj hbytes]
          exact Bytes.isUtf8_ofString body
        · rw [Option.bind_some, htext, Option.bind_some, hdecode]
      | some e => exact .inr (.inl ⟨body, e, rfl, hdecode, rfl⟩)

/-- A pop `Strands` a task whose body is no text, as the reply of the script is refused. -/
theorem strands_of_not_isUtf8 (hmembers : s.zset? q.queueKey = .ok (x :: rest))
    (hj : memberNumber? x.member = some j) (hfields : s.hash? (q.taskKey (idText j)) = .ok fields)
    (data : Bytes) (hdata : fields.get? (Bytes.ofString "data") = some data)
    (hnot : ¬ Bytes.IsUtf8 data) (now : Timestamp) : q.Strands (idText j) now s := by
  obtain ⟨s', htake, hpopped, -⟩ := take_of_hash hmembers hj hfields
  have htext : Bytes.toString? data = none := by
    rw [Bytes.isUtf8_iff_isSome, Option.not_isSome_iff_eq_none] at hnot
    exact hnot
  have hpop : q.pop now s = (.error (.storeFailed StoreError.badReply.message), s') := by
    rw [pop_eq, htake, hdata]
    unfold taken
    dsimp only
    rw [htext]
  refine ⟨by simp [hpop], by simp [hpop], ?_⟩
  rw [hpop]
  unfold Store.hget
  rw [hpopped]
  exact congrArg Except.ok (FiniteMap.get?_insert_self fields _ _)

/-- A pop that takes a task off the queue leaves it stranded exactly when its body is no text.  It
hands the task out or gives it up exactly when the body is missing or a text and, where it cannot be
decoded, the rest of the hash is salvageable and the year has four digits. -/
theorem pop_settles_iff (hmembers : s.zset? q.queueKey = .ok (x :: rest))
    (hmember : x.member = memberText k) (hk : k < 2 ^ 64)
    (hfields : s.hash? (q.taskKey (idText (scriptNumber k))) = .ok fields)
    (hsecs : q.ttlSecs ≤ Store.maxTtl now.millis) :
    (q.pop now s).2.zset? q.queueKey = .ok rest ∧
    (q.Strands (idText (scriptNumber k)) now s ↔
      ∃ data, fields.get? (Bytes.ofString "data") = some data ∧ ¬ Bytes.IsUtf8 data) ∧
    ((q.HandsOut (idText (scriptNumber k)) now s ∨
        ∃ reason, q.GivesUp (idText (scriptNumber k)) reason now s) ↔
      (∀ data, fields.get? (Bytes.ofString "data") = some data → Bytes.IsUtf8 data) ∧
      ((textAt fields "data").bind Envelope.decode? = none →
        Salvageable fields ∧ 0 ≤ now.date.year ∧ now.date.year ≤ 9999)) := by
  have hj : memberNumber? x.member = some (scriptNumber k) := by
    rw [hmember, memberNumber?_memberText_of_lt hk]
  obtain ⟨s', htake, hpopped, hrest⟩ := take_of_hash hmembers hj hfields
  have hstrands := strands_of_not_isUtf8 hmembers hj hfields
  generalize idText (scriptNumber k) = id at *
  have hdata : s.hget (q.taskKey id) (Bytes.ofString "data") =
      .ok (fields.get? (Bytes.ofString "data")) := by
    unfold Store.hget
    rw [hfields]
  refine ⟨zset?_pop (by rw [htake, hrest]) now, ?_⟩
  rcases taken_cases id (fields.get? (Bytes.ofString "data")) with
    ⟨bytes, hbytes, hnot, -⟩ | ⟨body, e, hbody, hdecode, htaken⟩ | ⟨reason, htext, hnone, htaken⟩
  · -- the reply is refused
    have hstranded := hstrands bytes hbytes hnot now
    exact ⟨iff_of_true hstranded ⟨bytes, hbytes, hnot⟩,
      iff_of_false hstranded.not_settled fun h => hnot (h.1 bytes hbytes)⟩
  · -- the task is handed out
    have hhanded : q.HandsOut id now s :=
      ⟨body, e, _, hdata.trans (congrArg Except.ok hbody), hdecode, by rw [pop_eq, htake, htaken],
        e.isHandedOutAs_popped id⟩
    have hutf8 : ∀ data, fields.get? (Bytes.ofString "data") = some data → Bytes.IsUtf8 data := by
      intro data h
      rw [← Option.some.inj (hbody.symm.trans h)]
      exact Bytes.isUtf8_ofString body
    refine ⟨iff_of_false (fun h => h.not_settled (.inl hhanded)) ?_,
      iff_of_true (.inl hhanded) ⟨hutf8, ?_⟩⟩
    · rintro ⟨data, h, hnot⟩
      exact hnot (hutf8 data h)
    · intro hnone
      unfold textAt at hnone
      rw [hbody, Option.bind_some, Bytes.toString?_ofString, Option.bind_some, hdecode] at hnone
      cases hnone
  · -- the body is missing or cannot be decoded
    rw [htaken] at htake
    have hanswer : (q.pop now s).1 = .error (.corrupt id reason) := by rw [pop_eq, htake]
    refine ⟨iff_of_false (fun h => h.notGivenUp id reason hanswer) ?_, ?_⟩
    · rintro ⟨data, h, hnot⟩
      exact hnot (htext data h)
    · rw [settled_iff_givesUp hanswer, givesUp_iff htake hpopped hsecs, and_iff_right htext]
      exact ⟨fun h _ => h, fun h => h hnone⟩

/-! ### A task and a body that is no text -/

/-- The id of the first push, with its number as a script shows it. -/
theorem scriptNumber_one : idText (scriptNumber (1 : Nat)) = "1" := by decide +kernel

/-- A task that was just pushed is handed out or given up. -/
theorem pop_settles_iff_onePush : ∃ x fields,
    (history .empty onePush).2.zset? defaultClient.queueKey = .ok [x] ∧
    x.member = memberText 1 ∧ 1 < 2 ^ 64 ∧
    (history .empty onePush).2.hash? (defaultClient.taskKey (idText (scriptNumber (1 : Nat)))) =
      .ok fields ∧
    defaultClient.ttlSecs ≤ Store.maxTtl Timestamp.epoch.millis ∧
    (defaultClient.HandsOut "1" .epoch (history .empty onePush).2 ∨
      ∃ reason, defaultClient.GivesUp "1" reason .epoch (history .empty onePush).2) := by
  have hview := shows_firstPush defaultClient ⟨"echo", .null, none⟩ 0
  have hfields := hview.hashes (idText (scriptNumber (1 : Nat)))
  have hid := scriptNumber_one
  have hpending := Pending.of_push "1" ⟨"echo", .null, none⟩
  have hsecs : defaultClient.ttlSecs ≤ Store.maxTtl Timestamp.epoch.millis := by decide
  refine ⟨_, _, hview.members, rfl, by decide, hfields, hsecs, ?_⟩
  rw [← hid]
  refine (pop_settles_iff hview.members rfl (by decide) hfields hsecs).2.2.2 ⟨?_, ?_⟩
  · intro data hdata
    rw [hid, Function.update_self] at hdata
    obtain ⟨body, rfl⟩ := hpending.text.exists_text hdata
    exact Bytes.isUtf8_ofString body
  · intro hnone
    rw [hid, Function.update_self, hpending.data] at hnone
    exact absurd hnone (by decide +kernel)

/-- A byte that is no text in the place of the body: the pop `Strands` the task. -/
theorem exists_strands : ∃ (q : RedisQueue) (s : Store) (x : Scored) (rest : List Scored) (k : Nat)
    (fields : FiniteMap Bytes Bytes), q.config.validate = .ok () ∧
    s.zset? q.queueKey = .ok (x :: rest) ∧ x.member = memberText k ∧ k < 2 ^ 64 ∧
    s.hash? (q.taskKey (idText (scriptNumber k))) = .ok fields ∧
    q.ttlSecs ≤ Store.maxTtl Timestamp.epoch.millis ∧
    ∀ now, q.Strands (idText (scriptNumber k)) now s := by
  have hview := shows_firstPush defaultClient ⟨"echo", .null, none⟩ 0
  obtain ⟨s, -, h⟩ := hview.hset "1" [(Bytes.ofString "data", [255])]
  have hfields := h.hashes (idText (scriptNumber (1 : Nat)))
  refine ⟨defaultClient, s, _, _, 1, _, rfl, h.members, rfl, by decide, hfields, by decide,
    fun now => ?_⟩
  have hj : memberNumber? (memberText 1) = some (scriptNumber (1 : Nat)) :=
    memberNumber?_memberText_of_lt (by decide)
  refine strands_of_not_isUtf8 h.members hj hfields [255] ?_ ?_ now
  · rw [scriptNumber_one, Function.update_self]
    exact FiniteMap.get?_insert_self _ _ _
  · rw [Bytes.isUtf8_iff_isSome]
    decide +kernel

end RedisQueue

end TaskScheduler
