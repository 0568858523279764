import TaskScheduler.Data.FiniteMap
import TaskScheduler.Number.Binary64
import TaskScheduler.Text.Bytes

/-!
# The key-value store

A store maps keys to strings, hashes and sorted sets, each perhaps with a time to live.  Every
command either fails and changes nothing, or succeeds and gives the new store; a command on a key
that holds another kind of value fails.  A hash or sorted set that becomes empty is removed.

Sorted sets are kept in the order in which they are popped: by score, and by the bytes of the member
among equal scores.  Scores are floating-point numbers, so a whole number given as a score is
rounded to 53 significant digits.
-/

namespace TaskScheduler.Redis

/-- A member of a sorted set with its score. -/
structure Scored where
  /-- The score. -/
  score : Int
  /-- The member. -/
  member : Bytes
  deriving DecidableEq, Repr

/-- Whether a member is popped before another. -/
def Scored.before (a b : Scored) : Bool :=
  a.score < b.score || (a.score == b.score && Bytes.before a.member b.member)

/-- What a key holds. -/
inductive Value where
  /-- A string. -/
  | string (s : Bytes)
  /-- Fields with values. -/
  | hash (fields : FiniteMap Bytes Bytes)
  /-- Members with scores, in pop order. -/
  | zset (members : List Scored)
  deriving DecidableEq

/-- What a key holds, and for how long. -/
structure Entry where
  /-- The value. -/
  value : Value
  /-- The seconds after which the key expires, if it does. -/
  ttl : Option Nat
  deriving DecidableEq

/-- The contents of a store. -/
abbrev Store := FiniteMap Bytes Entry

/-- Why a command failed. -/
inductive StoreError where
  /-- The key holds another kind of value. -/
  | wrongType
  /-- A counter is not a whole number. -/
  | notInteger
  /-- A counter is at its greatest value. -/
  | overflow
  /-- A time to live is out of range. -/
  | badExpire
  /-- A script was given a text that is no number. -/
  | badNumber
  /-- A reply is not valid UTF-8. -/
  | badReply
  deriving DecidableEq, Repr

/-- The text of an error. -/
def StoreError.message : StoreError → String
  | wrongType => "WRONGTYPE Operation against a key holding the wrong kind of value"
  | notInteger => "ERR value is not an integer or out of range"
  | overflow => "ERR increment or decrement would overflow"
  | badExpire => "ERR invalid expire time in 'expire' command"
  | badNumber => "ERR number expected, got nil"
  | badReply => "response was not valid UTF-8"

namespace Store

/-! ### Values by kind -/

/-- The fields of the hash at a key, none when there is no such key. -/
def hash? (s : Store) (key : Bytes) : Except StoreError (FiniteMap Bytes Bytes) :=
  match s.get? key with
  | none => .ok .empty
  | some e =>
    match e.value with
    | .hash fields => .ok fields
    | _ => .error .wrongType

/-- The members of the sorted set at a key, none when there is no such key. -/
def zset? (s : Store) (key : Bytes) : Except StoreError (List Scored) :=
  match s.get? key with
  | none => .ok []
  | some e =>
    match e.value with
    | .zset members => .ok members
    | _ => .error .wrongType

/-- The time to live of a key. -/
def ttl (s : Store) (key : Bytes) : Option Nat := (s.get? key).bind Entry.ttl

/-- Put a value at a key and keep its time to live.  An empty hash or sorted set is removed. -/
def replace (s : Store) (key : Bytes) (v : Value) : Store :=
  match v with
  | .hash fields => if fields.isEmpty then s.erase key else s.insert key ⟨v, ttl s key⟩
  | .zset members => if members.isEmpty then s.erase key else s.insert key ⟨v, ttl s key⟩
  | .string _ => s.insert key ⟨v, ttl s key⟩

/-! ### Strings -/

/-- Set a key to a string, without a time to live. -/
def set (s : Store) (key value : Bytes) : Store := s.insert key ⟨.string value, none⟩

/-- The number of a counter: decimal digits without leading zeros, perhaps after a minus sign, in
the range of a signed 64-bit word. -/
def counterValue? (b : Bytes) : Option Int :=
  let (negative, digits) : Bool × List UInt8 := match b with
    | 45 :: rest => (true, rest)
    | _ => (false, b)
  let isDigit (d : UInt8) : Bool := 48 ≤ d && d ≤ 57
  let n : Nat := digits.foldl (fun n d => 10 * n + (d.toNat - 48)) 0
  if digits = [] ∨ !digits.all isDigit then none
  else if digits.head? = some 48 ∧ (digits ≠ [48] ∨ negative) then none
  else
    let i : Int := if negative then -n else n
    if -2 ^ 63 ≤ i ∧ i < 2 ^ 63 then some i else none

/-- The decimal text of a counter. -/
def counterText (i : Int) : Bytes :=
  Bytes.ofString (String.ofList
    ((if i < 0 then ['-'] else []) ++ Nat.toDigits 10 i.natAbs))

/-- Add one to the counter at a key, which starts at zero. -/
def incr (s : Store) (key : Bytes) : Except StoreError (Int × Store) :=
  let put (n : Int) : Except StoreError (Int × Store) :=
    if n + 1 < 2 ^ 63 then .ok (n + 1, s.replace key (.string (counterText (n + 1))))
    else .error .overflow
  match s.get? key with
  | none => put 0
  | some e =>
    match e.value with
    | .string b =>
      match counterValue? b with
      | some n => put n
      | none => .error .notInteger
    | _ => .error .wrongType

/-! ### Hashes -/

/-- Set fields of the hash at a key. -/
def hset (s : Store) (key : Bytes) (fields : List (Bytes × Bytes)) : Except StoreError Store :=
  match s.hash? key with
  | .ok h => .ok (s.replace key (.hash (h.insertMany fields)))
  | .error e => .error e

/-- Remove fields of the hash at a key. -/
def hdel (s : Store) (key : Bytes) (fields : List Bytes) : Except StoreError Store :=
  match s.hash? key with
  | .ok h => .ok (s.replace key (.hash (fields.foldl FiniteMap.erase h)))
  | .error e => .error e

/-- The value of a field of the hash at a key. -/
def hget (s : Store) (key field : Bytes) : Except StoreError (Option Bytes) :=
  match s.hash? key with
  | .ok h => .ok (h.get? field)
  | .error e => .error e

/-! ### Sorted sets -/

/-- Put a member into a list in pop order. -/
def insertScored (x : Scored) : List Scored → List Scored
  | [] => [x]
  | y :: rest => if x.before y then x :: y :: rest else y :: insertScored x rest

/-- Set the score of a member of the sorted set at a key. -/
def zadd (s : Store) (key : Bytes) (score : Int) (member : Bytes) : Except StoreError Store :=
  match s.zset? key with
  | .ok members =>
    let others := members.filter fun x => x.member ≠ member
    .ok (s.replace key (.zset (insertScored ⟨Binary64.roundInt score, member⟩ others)))
  | .error e => .error e

/-- Take the first member off the sorted set at a key. -/
def zpopmin (s : Store) (key : Bytes) : Except StoreError (Option (Bytes × Store)) :=
  match s.zset? key with
  | .ok [] => .ok none
  | .ok (x :: rest) => .ok (some (x.member, s.replace key (.zset rest)))
  | .error e => .error e

/-- Remove a member from the sorted set at a key, and say whether it was there. -/
def zrem (s : Store) (key member : Bytes) : Except StoreError (Bool × Store) :=
  match s.zset? key with
  | .ok members =>
    if members.any fun x => x.member = member then
      .ok (true, s.replace key (.zset (members.filter fun x => x.member ≠ member)))
    else .ok (false, s)
  | .error e => .error e

/-- The number of members of the sorted set at a key. -/
def zcard (s : Store) (key : Bytes) : Except StoreError Nat :=
  match s.zset? key with
  | .ok members => .ok members.length
  | .error e => .error e

/-! ### Keys -/

/-- The greatest time to live in seconds that `expire` takes when the clock of the store shows
`present`, in milliseconds since 1970: the instant of expiry has to fit 63 bits. -/
def maxTtl (present : Int) : Nat := ((2 ^ 63 - 1 - max 0 present) / 1000).toNat

/-- Let a key expire some seconds after the present.  A missing key is left alone. -/
def expire (s : Store) (present : Int) (key : Bytes) (secs : Nat) : Except StoreError Store :=
  if 2 ^ 63 ≤ secs then .error .notInteger
  else if maxTtl present < secs then .error .badExpire
  else
    match s.get? key with
    | none => .ok s
    | some e => .ok (s.insert key { e with ttl := some secs })

/-- Remove keys. -/
def del (s : Store) (keys : List Bytes) : Store := keys.foldl FiniteMap.erase s

end Store

end TaskScheduler.Redis
