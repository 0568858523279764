import TaskScheduler.Proofs.Queue.Stages

/-!
# The two texts of a number

A push numbers its task and writes the number twice: without leading zeros, as the id, and padded to
sixteen digits, as the member of the sorted set.  A pop reads the member and writes the id, and a
cancelation reads the id and writes the member.  For numbers that a script keeps exactly the two
conversions undo each other, so the three operations move one member and write one hash.
-/

namespace TaskScheduler.RedisQueue

open Redis

variable {q : RedisQueue} {s : Store} {n : Nat} {members : List Scored}
  {hash : String → FiniteMap Bytes Bytes}

/-! ### Conversions -/

/-- An id and a member are the texts of one number. -/
structure AreTextsOf (id : String) (member : Bytes) : Prop where
  /-- The member has sixteen digits. -/
  length : member.length = 16
  /-- Lower-case digits are written. -/
  lower : ∀ c ∈ id.toList, Hex.IsLower c
  /-- The id does not begin with a zero. -/
  head : id.toList.head? ≠ some '0'
  /-- The member is the id behind zeros. -/
  padded : member =
    Bytes.ofString (String.ofList (List.replicate (16 - id.toList.length) '0' ++ id.toList))
  /-- Reading the member and writing without zeros gives the id. -/
  id_eq : (memberNumber? member).map idText = some id
  /-- Reading the id and writing with zeros gives the member. -/
  member_eq : (scriptRead? id.toList).map memberText = some member

/-- The `memberText` of a number of 64 binary digits has sixteen bytes. -/
theorem length_memberText (h : n < 2 ^ 64) : (memberText n).length = 16 := by
  have hascii : ∀ c ∈ Hex.padded n, c.toNat < 128 :=
    fun c hc => (Hex.isLower_of_mem_padded hc).toNat_lt
  unfold memberText
  rw [Bytes.ofString_ofList hascii, List.length_map, Hex.length_padded h]

/-- The `idText` and the `memberText` of a positive number of up to 53 binary digits are the texts
of one number. -/
theorem areTextsOf_number (hpos : 1 ≤ n) (h : n ≤ 2 ^ 53) :
    AreTextsOf (idText n) (memberText n) := by
  have hdigits : (idText n).toList = Hex.digits n := String.toList_ofList
  constructor
  · exact length_memberText (by omega)
  · intro c hc
    exact Hex.isLower_of_mem_digits (hdigits ▸ hc)
  · intro hzero
    rw [hdigits] at hzero
    have := Hex.eq_zero_of_head? hzero
    omega
  · rw [hdigits]
    rfl
  · rw [memberNumber?_memberText h, Option.map_some]
  · rw [scriptRead?_idText h, Option.map_some]

/-- `scriptRead?` reads an id as the number of its member. -/
theorem AreTextsOf.exists_scriptRead? {id : String} {member : Bytes} (h : AreTextsOf id member) :
    ∃ k, scriptRead? id.toList = some k ∧ memberText k = member :=
  Option.map_eq_some_iff.1 h.member_eq

/-- `memberNumber?` reads a member as the number of its id. -/
theorem AreTextsOf.exists_memberNumber? {id : String} {member : Bytes} (h : AreTextsOf id member) :
    ∃ k, memberNumber? member = some k ∧ idText k = id :=
  Option.map_eq_some_iff.1 h.id_eq

/-! ### Operations -/

/-- A pop that takes a member off the queue writes into the hash at the id of the member only, also
when the task cannot be read. -/
theorem Shows.pop_member {x : Scored} {rest : List Scored} (h : Shows q s n (x :: rest) hash)
    {k : Nat} (hx : memberNumber? x.member = some k) (now : Timestamp) :
    ∃ s' fields, q.pop now s =
        (taken (idText k) ((hash (idText k)).get? (Bytes.ofString "data")), s') ∧
      Shows q s' n rest (Function.update hash (idText k) fields) := by
  obtain ⟨s₁, htake, h₁⟩ := h.take_cons hx
  rw [pop_eq, htake]
  cases htaken : taken (idText k) ((hash (idText k)).get? (Bytes.ofString "data")) with
  | ok task => exact ⟨_, _, rfl, h₁⟩
  | error err =>
    cases err with
    | corrupt id' reason =>
      obtain rfl := eq_of_taken_eq htaken
      obtain ⟨answer, s₂, hreport, -, h₂⟩ := h₁.report (corruptReport (idText k) reason) now
      have hid : (corruptReport (idText k) reason).id = idText k := rfl
      rw [hid, Function.update_idem] at h₂
      refine ⟨s₂, _, ?_, h₂⟩
      dsimp only
      rw [hreport]
    | _ => exact ⟨_, _, rfl, h₁⟩

/-- The operations on the task of one number: a push puts the member into the queue and writes the
hash at the id, and a pop or a cancelation takes the same member away and writes the same hash. -/
structure Serves (q : RedisQueue) (number : Nat) (id : String) (member : Bytes) : Prop where
  /-- The push that gets the number answers the id, and adds the member and the hash. -/
  push : ∀ {s n members hash}, Shows q s n members hash → n + 1 = number → ∀ e priority,
    ∃ s', q.push e priority s = (.ok id, s') ∧
      Shows q s' number
        (Store.insertScored ⟨Binary64.roundInt priority.toInt, member⟩
          (members.filter fun x => x.member ≠ member))
        (Function.update hash id ((hash id).insertMany (pushedFields id e)))
  /-- A pop of the member reads the body at the id, and writes there only. -/
  pop : ∀ {s n x rest hash}, Shows q s n (x :: rest) hash → x.member = member → ∀ now,
    ∃ s' fields, q.pop now s = (taken id ((hash id).get? (Bytes.ofString "data")), s') ∧
      Shows q s' n rest (Function.update hash id fields)
  /-- A cancelation of the id takes the member away if it is queued, and writes at the id only. -/
  cancel_queued : ∀ {s n members hash}, Shows q s n members hash →
    (∃ x ∈ members, x.member = member) → ∀ now,
    ∃ answer s', q.cancel id now s = (answer, s') ∧ q.IsKept now answer ∧
      Shows q s' n (members.filter fun x => x.member ≠ member)
        (Function.update hash id ((hash id).insertMany (canceledFields now)))
  /-- If the member is not queued, a cancelation of the id does not find it. -/
  cancel_gone : ∀ {s n members hash}, Shows q s n members hash →
    (∀ x ∈ members, x.member ≠ member) → ∀ now,
    q.cancel id now s = (.error (.notFound id), s)

/-- By its two texts the operations serve the task of a positive number of up to 53 binary digits
(`Serves`). -/
theorem serves_number (q : RedisQueue) (hpos : 1 ≤ n) (h : n ≤ 2 ^ 53) :
    Serves q n (idText n) (memberText n) := by
  have htexts := areTextsOf_number hpos h
  obtain ⟨k, hread, hk⟩ := htexts.exists_scriptRead?
  obtain ⟨j, hnumber, hj⟩ := htexts.exists_memberNumber?
  constructor
  · intro s m members hash hshows hm e priority
    subst hm
    exact hshows.push h e priority
  · intro s m x rest hash hshows hx now
    rw [← hx] at hnumber
    rw [← hj]
    exact hshows.pop_member hnumber now
  · intro s m members hash hshows hqueued now
    rw [← hk] at hqueued ⊢
    exact hshows.cancel_found hread hqueued now
  · intro s m members hash hshows hgone now
    refine hshows.cancel_notFound (fun k' hread' x hx => ?_) now
    obtain rfl : k = k' := Option.some.inj (hread.symm.trans hread')
    exact hk ▸ hgone x hx

/-- The texts that a push writes for two numbers: the members compare as the numbers, and each
member and its id are converted into each other by the operations (`Serves`). -/
theorem push_texts_agree (q : RedisQueue) {a b : Nat} (ha : 1 ≤ a) (hab : a < b)
    (hb : b < 2 ^ 53) :
    (Bytes.before (memberText (scriptNumber a)) (memberText (scriptNumber b)) = true ∧
      Bytes.before (memberText (scriptNumber b)) (memberText (scriptNumber a)) = false) ∧
    (AreTextsOf (idText (scriptNumber a)) (memberText (scriptNumber a)) ∧
      AreTextsOf (idText (scriptNumber b)) (memberText (scriptNumber b))) ∧
    Serves q a (idText (scriptNumber a)) (memberText (scriptNumber a)) ∧
      Serves q b (idText (scriptNumber b)) (memberText (scriptNumber b)) := by
  rw [scriptNumber_eq_self (n := a) (by omega), scriptNumber_eq_self (n := b) (by omega)]
  have hbefore : Bytes.before (memberText a) (memberText b) = true :=
    (before_memberText_iff (by omega) (by omega)).2 hab
  have hafter : Bytes.before (memberText b) (memberText a) = false := by
    rw [Bool.eq_false_iff, ne_eq, before_memberText_iff (by omega) (by omega)]
    omega
  exact ⟨⟨hbefore, hafter⟩,
    ⟨areTextsOf_number ha (by omega), areTextsOf_number (by omega) (by omega)⟩,
    serves_number q ha (by omega), serves_number q (by omega) (by omega)⟩

/-- The fifteenth and the sixteenth push: the id gets a second digit, and the members stay in
order. -/
theorem push_texts_agree_secondDigit :
    (1 ≤ 15 ∧ 15 < 16 ∧ 16 < 2 ^ 53) ∧
    (idText 15 = "f" ∧ idText 16 = "10") ∧
    Bytes.before (memberText (scriptNumber (15 : Nat))) (memberText (scriptNumber (16 : Nat))) =
      true ∧
    Serves defaultClient 16 (idText (scriptNumber (16 : Nat)))
      (memberText (scriptNumber (16 : Nat))) := by
  have hbounds : 1 ≤ 15 ∧ 15 < 16 ∧ 16 < 2 ^ 53 := by decide
  obtain ⟨⟨hbefore, -⟩, -, -, hserves⟩ :=
    push_texts_agree defaultClient hbounds.1 hbounds.2.1 hbounds.2.2
  exact ⟨hbounds, ⟨by decide, by decide⟩, hbefore, hserves⟩

end TaskScheduler.RedisQueue
