import TaskScheduler.Number.Binary64

/-!
# JSON values

Payloads and results are JSON values.  Numbers without fraction or exponent are kept exactly while
they fit 64 bits, signed or unsigned; all others are floating-point numbers.  An object is kept as a
list of members in increasing order of their keys, so that two objects with the same members are the
same value: `Canonical` says this of every object inside a value, and `ofMembers` establishes it.
-/

namespace TaskScheduler

namespace Json

/-- A whole number that is kept exactly: it fits 64 bits, with or without sign. -/
structure Integer where
  /-- The number. -/
  val : Int
  /-- It is not below the least signed 64-bit number. -/
  lower : -2 ^ 63 ≤ val
  /-- It is at most the greatest unsigned 64-bit number. -/
  upper : val < 2 ^ 64
  deriving DecidableEq, Repr

/-- The exact number for an integer, if it fits. -/
def Integer.ofInt? (i : Int) : Option Integer :=
  if h : -2 ^ 63 ≤ i ∧ i < 2 ^ 64 then some ⟨i, h.1, h.2⟩ else none

theorem Integer.ofInt?_val (i : Integer) : Integer.ofInt? i.val = some i :=
  dif_pos ⟨i.lower, i.upper⟩

/-- The exact number of an unsigned word. -/
def Integer.ofWord (n : UInt64) : Integer :=
  ⟨n.toNat, by omega, by have := n.toNat_lt; omega⟩

end Json

/-- A JSON value. -/
inductive Json where
  /-- The value `null`. -/
  | null
  /-- A truth value. -/
  | bool (b : Bool)
  /-- A whole number that is kept exactly. -/
  | int (i : Json.Integer)
  /-- A finite floating-point number. -/
  | float (x : Binary64)
  /-- A text. -/
  | str (s : String)
  /-- An array. -/
  | arr (items : List Json)
  /-- An object. -/
  | obj (members : List (String × Json))
  deriving Inhabited, Repr

namespace Json

mutual

/-- Whether two values are the same. -/
def beq : Json → Json → Bool
  | null, null => true
  | bool a, bool b => a == b
  | int a, int b => a == b
  | float a, float b => a == b
  | str a, str b => a == b
  | arr a, arr b => beqItems a b
  | obj a, obj b => beqMembers a b
  | _, _ => false

/-- Whether two lists of values are the same. -/
def beqItems : List Json → List Json → Bool
  | [], [] => true
  | a :: as, b :: bs => beq a b && beqItems as bs
  | _, _ => false

/-- Whether two lists of members are the same. -/
def beqMembers : List (String × Json) → List (String × Json) → Bool
  | [], [] => true
  | a :: as, b :: bs => a.1 == b.1 && beq a.2 b.2 && beqMembers as bs
  | _, _ => false

end

mutual

theorem beq_iff (a b : Json) : beq a b = true ↔ a = b := by
  match a with
  | null => cases b <;> simp [beq]
  | bool _ => cases b <;> simp [beq]
  | int _ => cases b <;> simp [beq]
  | float _ => cases b <;> simp [beq]
  | str _ => cases b <;> simp [beq]
  | arr items => cases b <;> simp [beq, beqItems_iff items]
  | obj members => cases b <;> simp [beq, beqMembers_iff members]

theorem beqItems_iff (as bs : List Json) : beqItems as bs = true ↔ as = bs := by
  match as, bs with
  | [], [] => simp [beqItems]
  | [], _ :: _ => simp [beqItems]
  | _ :: _, [] => simp [beqItems]
  | a :: as, b :: bs => simp [beqItems, beq_iff a, beqItems_iff as]

theorem beqMembers_iff (as bs : List (String × Json)) : beqMembers as bs = true ↔ as = bs := by
  match as, bs with
  | [], [] => simp [beqMembers]
  | [], _ :: _ => simp [beqMembers]
  | _ :: _, [] => simp [beqMembers]
  | (k, a) :: as, (k', b) :: bs => simp [beqMembers, beq_iff a, beqMembers_iff as]

end

instance : DecidableEq Json := fun a b => decidable_of_iff _ (beq_iff a b)

/-- The exact number of a natural number, or a floating-point number when it is too large. -/
def ofNat (n : Nat) : Json :=
  match Integer.ofInt? n with
  | some i => int i
  | none => float (Binary64.ofMagnitude false (Binary64.ofNat n))

/-! ### Objects -/

/-- Set a member of a list of members in increasing order of keys. -/
def setMember (k : String) (v : Json) : List (String × Json) → List (String × Json)
  | [] => [(k, v)]
  | m :: rest =>
    if k < m.1 then (k, v) :: m :: rest
    else if m.1 = k then (k, v) :: rest
    else m :: setMember k v rest

/-- The object with the given members, where a later member wins over an earlier one. -/
def ofMembers (members : List (String × Json)) : Json :=
  obj (members.foldl (fun ms m => setMember m.1 m.2 ms) [])

/-- The value of a member in a list of members. -/
def member? (k : String) : List (String × Json) → Option Json
  | [] => none
  | m :: rest => if m.1 = k then some m.2 else member? k rest

/-- The value of a member of an object. -/
def get? (v : Json) (k : String) : Option Json :=
  match v with
  | obj members => member? k members
  | _ => none

/-- Keys in strictly increasing order. -/
def Increasing : List String → Prop
  | [] => True
  | k :: rest => (∀ k' ∈ rest, k < k') ∧ Increasing rest

mutual

/-- Every object inside a value has its keys in strictly increasing order. -/
def Canonical : Json → Prop
  | arr items => CanonicalItems items
  | obj members => Increasing (members.map Prod.fst) ∧ CanonicalMembers members
  | _ => True

/-- Every value of a list is canonical. -/
def CanonicalItems : List Json → Prop
  | [] => True
  | v :: rest => Canonical v ∧ CanonicalItems rest

/-- The value of every member is canonical. -/
def CanonicalMembers : List (String × Json) → Prop
  | [] => True
  | m :: rest => Canonical m.2 ∧ CanonicalMembers rest

end

mutual

/-- No number inside a value is a floating-point number. -/
def FloatFree : Json → Prop
  | float _ => False
  | arr items => FloatFreeItems items
  | obj members => FloatFreeMembers members
  | _ => True

/-- No value of a list has a floating-point number inside. -/
def FloatFreeItems : List Json → Prop
  | [] => True
  | v :: rest => FloatFree v ∧ FloatFreeItems rest

/-- No member has a floating-point number inside. -/
def FloatFreeMembers : List (String × Json) → Prop
  | [] => True
  | m :: rest => FloatFree m.2 ∧ FloatFreeMembers rest

end

mutual

/-- The number of arrays and objects that enclose the innermost value, itself included. -/
def depth : Json → Nat
  | arr items => depthItems items + 1
  | obj members => depthMembers members + 1
  | _ => 0

/-- The greatest depth in a list of values. -/
def depthItems : List Json → Nat
  | [] => 0
  | v :: rest => max (depth v) (depthItems rest)

/-- The greatest depth in a list of members. -/
def depthMembers : List (String × Json) → Nat
  | [] => 0
  | m :: rest => max (depth m.2) (depthMembers rest)

end

end Json

end TaskScheduler
