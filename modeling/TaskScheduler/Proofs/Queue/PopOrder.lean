import TaskScheduler.Proofs.Number.Binary64
import TaskScheduler.Proofs.Queue.Accounts

/-!
# The order in which tasks are popped

The store keeps the members of the sorted set by score, and members of one score by their bytes.
The members are padded, so their bytes compare as the numbers of the pushes do.  The scores,
however, are floating-point numbers: a priority of more than 53 binary digits is rounded.  Rounding
never turns two priorities round, but it can make them one, and then the earlier push is popped
first whatever its priority.

`Ranked` carries this along a history: the members are in order, and each has the rounded priority
of its push for a score.
-/

namespace TaskScheduler

open Redis

/-! ### The order of a sorted set -/

namespace RedisQueue

/-- A member stands for a number of at most 64 binary digits. -/
def IsNumbered (x : Scored) : Prop := ∃ k, k < 2 ^ 64 ∧ x.member = memberText k

/-- `Scored.before` compares members by score, and by number among equal scores. -/
theorem before_iff {x y : Scored} {k j : Nat} (hk : k < 2 ^ 64) (hj : j < 2 ^ 64)
    (hx : x.member = memberText k) (hy : y.member = memberText j) :
    x.before y = true ↔ x.score < y.score ∨ x.score = y.score ∧ k < j := by
  unfold Scored.before
  rw [Bool.or_eq_true, Bool.and_eq_true, decide_eq_true_eq, beq_iff_eq, hx, hy,
    before_memberText_iff hk hj]

/-- `Scored.before` is transitive on members that stand for numbers. -/
theorem before_trans {x y z : Scored} (hx : IsNumbered x) (hy : IsNumbered y) (hz : IsNumbered z)
    (hxy : x.before y = true) (hyz : y.before z = true) : x.before z = true := by
  obtain ⟨k, hk, hxk⟩ := hx
  obtain ⟨j, hj, hyj⟩ := hy
  obtain ⟨i, hi, hzi⟩ := hz
  rw [before_iff hk hj hxk hyj] at hxy
  rw [before_iff hj hi hyj hzi] at hyz
  rw [before_iff hk hi hxk hzi]
  omega

/-- Of two different members that stand for numbers one is `Scored.before` the other. -/
theorem before_total {x y : Scored} (hx : IsNumbered x) (hy : IsNumbered y)
    (hne : y.member ≠ x.member) (hxy : ¬ x.before y = true) : y.before x = true := by
  obtain ⟨k, hk, hxk⟩ := hx
  obtain ⟨j, hj, hyj⟩ := hy
  have hkj : k ≠ j := by
    rintro rfl
    exact hne (hyj.trans hxk.symm)
  rw [before_iff hk hj hxk hyj] at hxy
  rw [before_iff hj hk hyj hxk]
  omega

/-- The members are in the order in which they are popped. -/
def IsOrdered (members : List Scored) : Prop := members.Pairwise fun x y => x.before y = true

/-- `insertScored` puts a new member in its place, so that the members stay in order. -/
theorem IsOrdered.insertScored {x : Scored} {members : List Scored} (h : IsOrdered members)
    (hx : IsNumbered x) (hnumbered : ∀ y ∈ members, IsNumbered y)
    (hfresh : ∀ y ∈ members, y.member ≠ x.member) : IsOrdered (Store.insertScored x members) := by
  induction members with
  | nil => exact List.pairwise_singleton _ _
  | cons y rest ih =>
    obtain ⟨hy, hrest⟩ := List.pairwise_cons.1 h
    obtain ⟨hnumberedy, hnumbered⟩ := List.forall_mem_cons.1 hnumbered
    obtain ⟨hfreshy, hfresh⟩ := List.forall_mem_cons.1 hfresh
    unfold Store.insertScored
    split
    next hxy =>
      refine List.pairwise_cons.2 ⟨fun z hz => ?_, h⟩
      rcases List.mem_cons.1 hz with rfl | hz
      · exact hxy
      · exact before_trans hx hnumberedy (hnumbered z hz) hxy (hy z hz)
    next hxy =>
      refine List.pairwise_cons.2 ⟨fun z hz => ?_, ih hrest hnumbered hfresh⟩
      rcases List.mem_cons.1 ((Store.insertScored_perm x rest).mem_iff.1 hz) with rfl | hz
      · exact before_total hx hnumberedy hfreshy hxy
      · exact hy z hz

/-! ### The members after an event -/

variable {q client : RedisQueue} {s : Store} {n : Nat} {members : List Scored}

/-- The priority under which an event pushes a task. -/
def Event.priority? : Event → Option Int64
  | .call _ (.push _ priority) => some priority
  | _ => none

/-- An event pushes as many tasks as it has a `priority?`. -/
theorem Event.pushes_eq (e : Event) : e.pushes = e.priority?.toList.length := by
  cases e with
  | call client c => cases c <;> rfl
  | take client now => rfl
  | lapse key => rfl

/-- The members of a `Layout` are those that the store has. -/
theorem Layout.members_eq (h : Layout q s n members) {l : List Scored}
    (hl : s.zset? q.queueKey = .ok l) : members = l := by
  obtain ⟨hash, hview, -⟩ := h.view
  exact Except.ok.inj (hview.members.symm.trans hl)

/-- A report leaves the members of a `Layout` alone. -/
theorem Layout.zset?_report (h : Layout q s n members) (r : TaskReport) (now : Timestamp) :
    (q.report r now s).2.zset? q.queueKey = .ok members := by
  obtain ⟨hash, hview, -⟩ := (h.report r now).view
  exact hview.members

/-- `take` leaves all members of a `Layout` but the first. -/
theorem Layout.zset?_take (h : Layout q s n members) :
    (q.take s).2.zset? q.queueKey = .ok members.tail := by
  obtain ⟨hash, hview, -⟩ := h.view
  cases members with
  | nil =>
    rw [hview.take_nil]
    exact hview.members
  | cons x rest =>
    obtain ⟨k, -, hkn, hxk⟩ := h.ids x List.mem_cons_self
    have hnumber : memberNumber? x.member = some k := by
      rw [hxk, memberNumber?_memberText (hkn.trans h.few)]
    obtain ⟨s', htake, hview'⟩ := hview.take_cons hnumber
    rw [htake]
    exact hview'.members

/-- `pop` leaves all members of a `Layout` but the first. -/
theorem Layout.zset?_pop (h : Layout q s n members) (now : Timestamp) :
    (q.pop now s).2.zset? q.queueKey = .ok members.tail := by
  have htaken := h.zset?_take
  obtain ⟨answer, s', members', htake, h', -⟩ := h.take q now
  rw [htake] at htaken
  have hrest : members' = members.tail := h'.members_eq htaken
  rw [pop_eq, htake]
  split
  next id reason s₁ heq =>
    obtain ⟨rfl, rfl⟩ := Prod.mk.inj heq
    rw [← hrest]
    exact h'.zset?_report _ now
  next => exact htaken

/-- A cancelation takes members of a `Layout` away at most. -/
theorem Layout.zset?_cancel (h : Layout q s n members) (id : String) (now : Timestamp) :
    ∃ members', (q.cancel id now s).2.zset? q.queueKey = .ok members' ∧
      members'.Sublist members := by
  obtain ⟨hash, hview, -⟩ := h.view
  by_cases hfound : ∃ k, scriptRead? id.toList = some k ∧ ∃ x ∈ members, x.member = memberText k
  · obtain ⟨k, hk, hx⟩ := hfound
    obtain ⟨answer, s', hcancel, -, hview'⟩ := hview.cancel_found hk hx now
    rw [hcancel]
    exact ⟨_, hview'.members, List.filter_sublist⟩
  · have hnone : ∀ k, scriptRead? id.toList = some k → ∀ x ∈ members, x.member ≠ memberText k :=
      fun k hk x hx hxk => hfound ⟨k, hk, x, hx, hxk⟩
    rw [hview.cancel_notFound hnone]
    exact ⟨members, hview.members, .refl _⟩

/-- A push puts its member among those of a `Layout`, with the rounded priority for a score. -/
theorem Layout.zset?_push (h : Layout q s n members) (hn : n + 1 ≤ 2 ^ 53) (e : Envelope)
    (priority : Int64) :
    (q.push e priority s).2.zset? q.queueKey =
      .ok (Store.insertScored ⟨Binary64.roundInt priority.toInt, memberText (n + 1)⟩ members) := by
  obtain ⟨hash, hview, -⟩ := h.view
  obtain ⟨s', hpush, hview'⟩ := hview.push hn e priority
  have hfresh : ∀ x ∈ members, x.member ≠ memberText (n + 1) := by
    intro x hx hxn
    obtain ⟨k, -, hk, hxk⟩ := h.ids x hx
    have hkn := memberText_injective (hxk.symm.trans hxn)
    omega
  rw [List.filter_eq_self.2 (by simpa using hfresh)] at hview'
  rw [hpush]
  exact hview'.members

/-- An event that pushes puts a member among the others; any other event takes members away at
most. -/
theorem Layout.zset?_step (h : Layout q s n members) (e : Event)
    (hclient : ∀ client, e.client? = some client → client.config.keyPrefix = q.config.keyPrefix)
    (hn : n + e.pushes ≤ 2 ^ 53) :
    ∃ members', (e.step s).2.zset? q.queueKey = .ok members' ∧
      match e.priority? with
      | some p =>
        members' = Store.insertScored ⟨Binary64.roundInt p.toInt, memberText (n + 1)⟩ members
      | none => members'.Sublist members := by
  have hsame : ∃ members', s.zset? q.queueKey = .ok members' ∧ members'.Sublist members := by
    obtain ⟨hash, hview, -⟩ := h.view
    exact ⟨members, hview.members, .refl _⟩
  cases e with
  | take client now =>
    have hprefix := hclient client rfl
    have htaken := (h.of_keyPrefix hprefix).zset?_take
    rw [queueKey_of_keyPrefix hprefix] at htaken
    exact ⟨_, htaken, List.tail_sublist members⟩
  | lapse key =>
    obtain ⟨hash, hview, -⟩ := (h.lapse key).view
    exact ⟨members, hview.members, .refl _⟩
  | call client c =>
    have hprefix := hclient client rfl
    have hc := h.of_keyPrefix hprefix
    cases c with
    | push e priority =>
      have hpushed := hc.zset?_push hn e priority
      rw [queueKey_of_keyPrefix hprefix] at hpushed
      exact ⟨_, hpushed, rfl⟩
    | pop now =>
      have hpopped := hc.zset?_pop now
      rw [queueKey_of_keyPrefix hprefix] at hpopped
      exact ⟨_, hpopped, List.tail_sublist members⟩
    | cancel id now =>
      obtain ⟨members', hcanceled, hsub⟩ := hc.zset?_cancel id now
      rw [queueKey_of_keyPrefix hprefix] at hcanceled
      exact ⟨members', hcanceled, hsub⟩
    | report r now =>
      have hreported := hc.zset?_report r now
      rw [queueKey_of_keyPrefix hprefix] at hreported
      exact ⟨members, hreported, .refl _⟩
    | get id now => exact hsame
    | len => exact hsame
    | isEmpty => exact hsame

/-! ### Ranked queues -/

/-- The score of a priority. -/
def rank (p : Int64) : Int := Binary64.roundInt p.toInt

/-- A queue after pushes of the given priorities: its members are in order, and have the rounded
priorities of their pushes for scores. -/
structure Ranked (q : RedisQueue) (s : Store) (priorities : List Int64) (members : List Scored) :
    Prop where
  /-- The store is laid out as a queue. -/
  layout : Layout q s priorities.length members
  /-- The members are in order. -/
  ordered : IsOrdered members
  /-- The scores are rounded priorities. -/
  scores : ∀ x ∈ members, ∀ k, x.member = memberText (k + 1) →
    ∃ p, priorities[k]? = some p ∧ x.score = rank p

/-- Every member of a `Layout` stands for a number. -/
theorem Layout.isNumbered (h : Layout q s n members) : ∀ x ∈ members, IsNumbered x := by
  intro x hx
  obtain ⟨k, -, hkn, hxk⟩ := h.ids x hx
  have hfew := h.few
  exact ⟨k, by omega, hxk⟩

/-- An empty store is `Ranked`, without priorities and members. -/
theorem Ranked.empty (q : RedisQueue) : Ranked q .empty [] [] :=
  ⟨.empty q, .nil, by simp⟩

variable {priorities : List Int64}

/-- Every event keeps the queue `Ranked`, with its priority after the earlier ones. -/
theorem Ranked.step (h : Ranked q s priorities members) (e : Event)
    (hclient : ∀ client, e.client? = some client → client.config.keyPrefix = q.config.keyPrefix)
    (hn : (priorities ++ e.priority?.toList).length ≤ 2 ^ 53) :
    ∃ members', Ranked q (e.step s).2 (priorities ++ e.priority?.toList) members' := by
  rw [List.length_append, ← e.pushes_eq] at hn
  obtain ⟨⟨members', hlayout, -⟩, -, -⟩ := h.layout.balanced e hclient hn
  obtain ⟨l, hl, hmembers⟩ := h.layout.zset?_step e hclient hn
  obtain rfl : members' = l := hlayout.members_eq hl
  have hlayout' : Layout q (e.step s).2 (priorities ++ e.priority?.toList).length members' := by
    rw [List.length_append, ← e.pushes_eq]
    exact hlayout
  have hscores : ∀ x ∈ members, ∀ k, x.member = memberText (k + 1) →
      ∃ p, (priorities ++ e.priority?.toList)[k]? = some p ∧ x.score = rank p := by
    intro x hx k hxk
    obtain ⟨p, hp, hscore⟩ := h.scores x hx k hxk
    have hlt : k < priorities.length := (List.getElem?_eq_some_iff.1 hp).1
    exact ⟨p, by rw [List.getElem?_append_left hlt, hp], hscore⟩
  refine ⟨members', hlayout', ?_, ?_⟩
  · cases hp : e.priority? with
    | none =>
      rw [hp] at hmembers
      exact h.ordered.sublist hmembers
    | some p =>
      rw [hp] at hmembers
      rw [hmembers]
      have hone : e.pushes = 1 := by rw [e.pushes_eq, hp]; rfl
      have hnew : IsNumbered ⟨Binary64.roundInt p.toInt, memberText (priorities.length + 1)⟩ :=
        ⟨priorities.length + 1, by omega, rfl⟩
      refine h.ordered.insertScored hnew h.layout.isNumbered fun y hy hyx => ?_
      obtain ⟨k, -, hkn, hyk⟩ := h.layout.ids y hy
      have hk := memberText_injective (hyk.symm.trans hyx)
      omega
  · cases hp : e.priority? with
    | none =>
      rw [hp] at hmembers hscores
      exact fun x hx => hscores x (hmembers.subset hx)
    | some p =>
      rw [hp] at hmembers hscores
      intro x hx k hxk
      rw [hmembers, (Store.insertScored_perm _ members).mem_iff] at hx
      rcases List.mem_cons.1 hx with rfl | hx
      · have hk : priorities.length + 1 = k + 1 := memberText_injective hxk
        obtain rfl : priorities.length = k := by omega
        exact ⟨p, by simp, rfl⟩
      · exact hscores x hx k hxk

/-- The priorities of the pushes in a history, oldest first. -/
def pushedPriorities (events : List Event) : List Int64 := events.filterMap Event.priority?

/-- The `pushedPriorities` of a history are those of its first event and those of the others. -/
theorem pushedPriorities_cons (e : Event) (events : List Event) :
    pushedPriorities (e :: events) = e.priority?.toList ++ pushedPriorities events := by
  unfold pushedPriorities
  rw [List.filterMap_cons]
  cases e.priority? <;> rfl

/-- The `totalPushes` of a history are as many as its `pushedPriorities`. -/
theorem totalPushes_eq (events : List Event) :
    totalPushes events = (pushedPriorities events).length := by
  induction events with
  | nil => rfl
  | cons e events ih =>
    rw [pushedPriorities_cons, List.length_append, ← e.pushes_eq, ← ih]
    rfl

/-- Every history keeps the queue `Ranked`, with its priorities after the earlier ones. -/
theorem Ranked.history {events : List Event} :
    ∀ {s before members}, Ranked q s before members →
      (∀ e ∈ events, ∀ client, e.client? = some client →
        client.config.keyPrefix = q.config.keyPrefix) →
      (before ++ pushedPriorities events).length ≤ 2 ^ 53 →
      ∃ members', Ranked q (RedisQueue.history s events).2 (before ++ pushedPriorities events)
        members' := by
  induction events with
  | nil =>
    intro s before members h _ _
    have hnone : before ++ pushedPriorities [] = before := List.append_nil before
    rw [hnone]
    exact ⟨members, h⟩
  | cons e events ih =>
    intro s before members h hclients hn
    rw [pushedPriorities_cons, ← List.append_assoc] at hn ⊢
    rw [List.length_append] at hn
    obtain ⟨members₁, h₁⟩ := h.step e (hclients e List.mem_cons_self) (by omega)
    exact ih h₁ (fun e' he' => hclients e' (List.mem_cons_of_mem _ he'))
      (by rw [List.length_append]; exact hn)

/-! ### What is popped first -/

/-- The id that is given in a push, when the pushes are counted from zero. -/
def pushId (k : Nat) : String := idText (k + 1)

/-- One push goes before another by a measure of their priorities, and among equal measures by
age. -/
def Precedes (measure : Int64 → Int) (priorities : List Int64) (k j : Nat) : Prop :=
  ∃ p p', priorities[k]? = some p ∧ priorities[j]? = some p' ∧
    (measure p < measure p' ∨ measure p = measure p' ∧ k < j)

/-- One push has a higher priority than another, and rounding makes the two the same. -/
def Merged (priorities : List Int64) (k j : Nat) : Prop :=
  ∃ p p', priorities[k]? = some p ∧ priorities[j]? = some p' ∧ p' < p ∧ rank p' = rank p

/-- `rank` keeps the order of priorities: rounding is monotone. -/
theorem rank_mono {p p' : Int64} (h : p ≤ p') : rank p ≤ rank p' :=
  Binary64.roundInt_mono (Int64.le_iff_toInt_le.1 h)

/-- A push that `Precedes` another by rounded priorities does so by the priorities themselves,
unless rounding makes them the same. -/
theorem Precedes.toInt_iff {k j : Nat} (h : Precedes rank priorities k j) :
    Precedes Int64.toInt priorities k j ↔ ¬ Merged priorities k j := by
  obtain ⟨p, p', hp, hp', hrank⟩ := h
  constructor
  · rintro ⟨r, r', hr, hr', horder⟩ ⟨t, t', ht, ht', hlt, -⟩
    obtain rfl : r = t := Option.some.inj (hr.symm.trans ht)
    obtain rfl : r' = t' := Option.some.inj (hr'.symm.trans ht')
    rw [Int64.lt_iff_toInt_lt] at hlt
    omega
  · intro hmerged
    have hle : p ≤ p' := by
      by_contra hnot
      have hlt : p' < p := by
        rw [Int64.le_iff_toInt_le] at hnot
        rw [Int64.lt_iff_toInt_lt]
        omega
      have hge : rank p' ≤ rank p := by
        refine rank_mono ?_
        rw [Int64.lt_iff_toInt_lt] at hlt
        rw [Int64.le_iff_toInt_le]
        omega
      exact hmerged ⟨p, p', hp, hp', hlt, by omega⟩
    refine ⟨p, p', hp, hp', ?_⟩
    rw [Int64.le_iff_toInt_le] at hle
    rcases Int.lt_or_eq_of_le hle with hlt | heq
    · exact .inl hlt
    · -- equal priorities have equal ranks, so it was the age that decided
      obtain rfl : p = p' := Int64.toInt_inj.1 heq
      exact .inr ⟨rfl, by omega⟩

/-- The members of a `Ranked` queue, in order, are those of pushes each of which `Precedes` the
later ones. -/
theorem Ranked.exists_pushes (h : Ranked q s priorities members) :
    ∃ pushes : List Nat, members.map Scored.member = pushes.map (fun k => memberText (k + 1)) ∧
      idsOf members = pushes.map pushId ∧ pushes.Pairwise (Precedes rank priorities) := by
  obtain ⟨hlayout, hordered, hscores⟩ := h
  have hids := hlayout.ids
  have hfew := hlayout.few
  clear hlayout
  induction members with
  | nil => exact ⟨[], rfl, rfl, .nil⟩
  | cons x rest ih =>
    obtain ⟨hx, hrest⟩ := List.pairwise_cons.1 hordered
    obtain ⟨hscorex, hscores⟩ := List.forall_mem_cons.1 hscores
    obtain ⟨⟨n, hpos, hn, hxn⟩, hids⟩ := List.forall_mem_cons.1 hids
    obtain ⟨k, rfl⟩ : ∃ k, n = k + 1 := ⟨n - 1, by omega⟩
    obtain ⟨p, hp, hscore⟩ := hscorex k hxn
    obtain ⟨pushes, hmembers, hpushes, hpairs⟩ := ih hrest hscores hids
    refine ⟨k :: pushes, ?_, ?_, List.pairwise_cons.2 ⟨fun j hj => ?_, hpairs⟩⟩
    · rw [List.map_cons, List.map_cons, hxn, hmembers]
    · rw [idsOf_cons hxn (hn.trans hfew), hpushes]
      rfl
    · have hmem : memberText (j + 1) ∈ rest.map Scored.member :=
        hmembers ▸ List.mem_map_of_mem hj
      obtain ⟨y, hy, hyj⟩ := List.mem_map.1 hmem
      obtain ⟨p', hp', hscore'⟩ := hscores y hy j hyj
      have hjn : j < priorities.length := (List.getElem?_eq_some_iff.1 hp').1
      have hbefore := (before_iff (by omega) (by omega) hxn hyj).1 (hx y hy)
      exact ⟨p, p', hp, hp', by omega⟩

/-- A `pop` takes the first of the `queuedIds` and leaves the others. -/
theorem Layout.queuedIds_pop (h : Layout q s n members)
    (hclient : client.config.keyPrefix = q.config.keyPrefix) (now : Timestamp) :
    Served.consumed ⟨client, .pop now, .popped (client.pop now s).1⟩ = (queuedIds q s).take 1 ∧
    queuedIds q (client.pop now s).2 = (queuedIds q s).drop 1 ∧
    (queuedIds q s = [] → client.pop now s = (.error .empty, s)) := by
  have hc := h.of_keyPrefix hclient
  have htail := hc.zset?_pop now
  obtain ⟨answer, s', members', hpop, hlayout, hids⟩ := hc.pop client now
  rw [hpop] at htail ⊢
  rw [hlayout.members_eq htail] at hids hlayout
  rw [h.queuedIds_eq, (hlayout.of_keyPrefix hclient.symm).queuedIds_eq]
  cases members with
  | nil =>
    obtain ⟨hash, hview, -⟩ := hc.view
    rw [pop_eq, hview.take_nil] at hpop
    refine ⟨(List.append_eq_nil_iff.1 hids.symm).1, rfl, fun _ => hpop.symm⟩
  | cons x rest =>
    obtain ⟨k, -, hkn, hxk⟩ := h.ids x List.mem_cons_self
    have hcons := idsOf_cons hxk (hkn.trans h.few) rest
    have hone : idText k :: idsOf rest = [idText k] ++ idsOf rest := rfl
    rw [hcons, hone] at hids ⊢
    exact ⟨(List.append_cancel_right hids).symm, rfl, fun hnil => absurd hnil (by simp)⟩

/-- The ids of the queued tasks stand in the order in which they are popped.  Of two of them the
first was pushed with the lower rounded priority, or earlier with the same one.  Then it goes before
the other by the priorities themselves as well, unless rounding makes a higher priority the same as
the lower one. -/
theorem pops_by_rank {events : List Event}
    (hclients : ∀ e ∈ events, ∀ client, e.client? = some client →
      client.config.keyPrefix = q.config.keyPrefix)
    (hpushes : totalPushes events < 2 ^ 53)
    (hclient : client.config.keyPrefix = q.config.keyPrefix) (now : Timestamp) :
    pushedIds (history .empty events).1 =
      (List.range (pushedPriorities events).length).map pushId ∧
    ∃ pushes : List Nat,
      queuedIds q (history .empty events).2 = pushes.map pushId ∧
      (pushes.Pairwise fun k j => Precedes rank (pushedPriorities events) k j ∧
        (Precedes Int64.toInt (pushedPriorities events) k j ↔
          ¬ Merged (pushedPriorities events) k j)) ∧
      Served.consumed ⟨client, .pop now, .popped (client.pop now (history .empty events).2).1⟩ =
        (pushes.take 1).map pushId ∧
      queuedIds q (client.pop now (history .empty events).2).2 = (pushes.drop 1).map pushId ∧
      (pushes = [] → (client.pop now (history .empty events).2).1 = .error .empty) := by
  have hcount := totalPushes_eq events
  have hbalanced := (Layout.empty q).balanced_history events hclients (by omega)
  have hpushed : pushedIds (history .empty events).1 =
      (List.range (pushedPriorities events).length).map pushId := by
    rw [hbalanced.pushed, hcount, List.range_eq_range', List.range'_succ_left, List.map_map]
    rfl
  obtain ⟨members, hranked⟩ :=
    (Ranked.empty q).history hclients (by rw [List.nil_append]; omega)
  rw [List.nil_append] at hranked
  obtain ⟨pushes, -, hids, hpairs⟩ := hranked.exists_pushes
  obtain ⟨hconsumed, hrest, hempty⟩ := hranked.layout.queuedIds_pop hclient now
  have hqueued := hranked.layout.queuedIds_eq.trans hids
  rw [hqueued] at hconsumed hrest hempty
  refine ⟨hpushed, pushes, hqueued, hpairs.imp fun h => ⟨h, h.toInt_iff⟩, ?_, ?_, ?_⟩
  · rw [hconsumed, List.map_take]
  · rw [hrest, List.map_drop]
  · rintro rfl
    rw [hempty rfl]

/-- A client with default settings. -/
def defaultClient : RedisQueue := ⟨.default⟩

/-- Two tasks are pushed, the more urgent one last, with priorities that rounding makes the same. -/
def mergedPushes : List Event :=
  [.call defaultClient (.push ⟨"echo", .null, none⟩ 9007199254740993),
    .call defaultClient (.push ⟨"echo", .null, none⟩ 9007199254740992)]

/-- `defaultClient` is the only one that acts in `mergedPushes`. -/
theorem keyPrefix_of_mem_mergedPushes : ∀ e ∈ mergedPushes, ∀ client, e.client? = some client →
    client.config.keyPrefix = defaultClient.config.keyPrefix := by
  intro e he client hclient
  rcases List.mem_cons.1 he with rfl | he
  · cases hclient
    rfl
  · cases List.mem_singleton.1 he
    cases hclient
    rfl

/-- After `mergedPushes` there are the ids of pushes in the queue, and a pop takes the first of
them. -/
theorem pops_by_rank_mergedPushes :
    (∀ e ∈ mergedPushes, ∀ client, e.client? = some client →
      client.config.keyPrefix = defaultClient.config.keyPrefix) ∧
    totalPushes mergedPushes < 2 ^ 53 ∧
    ∃ pushes : List Nat,
      queuedIds defaultClient (history .empty mergedPushes).2 = pushes.map pushId ∧
      Served.consumed ⟨defaultClient, .pop .epoch,
          .popped (defaultClient.pop .epoch (history .empty mergedPushes).2).1⟩ =
        (pushes.take 1).map pushId := by
  refine ⟨keyPrefix_of_mem_mergedPushes, by decide, ?_⟩
  have hsame : defaultClient.config.keyPrefix = defaultClient.config.keyPrefix := rfl
  obtain ⟨-, pushes, hqueued, -, hconsumed, -⟩ :=
    pops_by_rank keyPrefix_of_mem_mergedPushes (by decide) hsame .epoch
  exact ⟨pushes, hqueued, hconsumed⟩

/-- A `pop` hands out a task although another one is queued that has a lower priority. -/
theorem exists_pop_out_of_order : ∃ (q : RedisQueue) (events : List Event) (now : Timestamp)
    (k j : Nat),
    (∀ e ∈ events, ∀ client, e.client? = some client →
      client.config.validate = .ok () ∧ client.config.keyPrefix = q.config.keyPrefix) ∧
    totalPushes events < 2 ^ 53 ∧
    pushedIds (history .empty events).1 =
      (List.range (pushedPriorities events).length).map pushId ∧
    queuedIds q (history .empty events).2 = [pushId k, pushId j] ∧
    Precedes Int64.toInt (pushedPriorities events) j k ∧
    Served.consumed ⟨q, .pop now, .popped (q.pop now (history .empty events).2).1⟩ =
      [pushId k] := by
  refine ⟨defaultClient, mergedPushes, .epoch, 0, 1, ?_, by decide, ?_, ?_, ?_, ?_⟩
  · intro e he client hclient
    refine ⟨?_, keyPrefix_of_mem_mergedPushes e he client hclient⟩
    rcases List.mem_cons.1 he with rfl | he
    · cases hclient
      rfl
    · cases List.mem_singleton.1 he
      cases hclient
      rfl
  · decide +kernel
  · decide +kernel
  · exact ⟨9007199254740992, 9007199254740993, rfl, rfl, by decide⟩
  · decide +kernel

end RedisQueue

end TaskScheduler
