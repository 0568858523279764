import TaskScheduler.Number.Power
import TaskScheduler.Text.WhiteSpace

/-!
# Timestamps

A `Timestamp` is a date and a time of day in UTC, exact to the nanosecond, with room for a leap
second.  It is written in the profile of ISO 8601 for the Internet.  There are two readers:
`strict?` takes that profile alone, and `lenient?` also takes single digits, blanks between the
parts, years with a sign, and offsets without a colon.
-/

namespace TaskScheduler

/-! ### Dates -/

/-- Whether a year of the proleptic Gregorian calendar has 366 days. -/
def isLeapYear (year : Int) : Bool := year % 4 = 0 && (year % 100 ≠ 0 || year % 400 = 0)

/-- The number of days of a month. -/
def daysInMonth (year : Int) (month : Nat) : Nat :=
  if month = 2 then (if isLeapYear year then 29 else 28)
  else if month = 4 ∨ month = 6 ∨ month = 9 ∨ month = 11 then 30
  else 31

theorem daysInMonth_pos (year : Int) (month : Nat) : 1 ≤ daysInMonth year month := by
  unfold daysInMonth
  split
  · split <;> omega
  · split <;> omega

/-- A day of the calendar. -/
structure Date where
  /-- The year, zero and negative ones included. -/
  year : Int
  /-- The month, counted from one. -/
  month : Nat
  /-- The day of the month, counted from one. -/
  day : Nat
  /-- There are twelve months. -/
  month_range : 1 ≤ month ∧ month ≤ 12
  /-- The month has the day. -/
  day_range : 1 ≤ day ∧ day ≤ daysInMonth year month
  deriving DecidableEq, Repr

namespace Date

/-- The day with the given numbers, if there is one. -/
def ofParts? (year : Int) (month day : Nat) : Option Date :=
  if h : (1 ≤ month ∧ month ≤ 12) ∧ 1 ≤ day ∧ day ≤ daysInMonth year month then
    some ⟨year, month, day, h.1, h.2⟩
  else none

/-- The first day of a month. -/
def firstOf (year : Int) (month : Nat) (h : 1 ≤ month ∧ month ≤ 12) : Date :=
  ⟨year, month, 1, h, by omega, daysInMonth_pos year month⟩

/-- The last day of a month. -/
def lastOf (year : Int) (month : Nat) (h : 1 ≤ month ∧ month ≤ 12) : Date :=
  ⟨year, month, daysInMonth year month, h, daysInMonth_pos year month, by omega⟩

/-- The day after. -/
def next (d : Date) : Date :=
  if h : d.day < daysInMonth d.year d.month then
    ⟨d.year, d.month, d.day + 1, d.month_range, by omega, h⟩
  else if h : d.month < 12 then firstOf d.year (d.month + 1) (by omega)
  else firstOf (d.year + 1) 1 (by omega)

/-- The day before. -/
def prev (d : Date) : Date :=
  if h : 1 < d.day then
    ⟨d.year, d.month, d.day - 1, d.month_range, by omega, by have := d.day_range; omega⟩
  else if h : 1 < d.month then lastOf d.year (d.month - 1) (by have := d.month_range; omega)
  else lastOf (d.year - 1) 12 (by omega)

/-- The number of days from the first day of the year zero to the first day of a year. -/
def daysBefore (year : Int) : Int :=
  365 * year + (year - 1) / 4 - (year - 1) / 100 + (year - 1) / 400

/-- The number of days of a year before a month. -/
def daysBeforeMonth (year : Int) (month : Nat) : Nat :=
  (List.range (month - 1)).foldl (fun days m => days + daysInMonth year (m + 1)) 0

/-- The number of days since the first day of the year 1970, negative before that day. -/
def number (d : Date) : Int :=
  daysBefore d.year - daysBefore 1970 + daysBeforeMonth d.year d.month + (d.day - 1)

end Date

/-! ### Timestamps -/

/-- A point in time in UTC. -/
structure Timestamp where
  /-- The day. -/
  date : Date
  /-- The second of the day. -/
  second : Nat
  /-- The nanosecond of the second; from `10 ^ 9` on it lies in a leap second that follows it. -/
  nano : Nat
  /-- A day has 86400 seconds. -/
  second_lt : second < 86400
  /-- A leap second is at most one second long. -/
  nano_lt : nano < 2 * 10 ^ 9
  /-- Only the last second of a minute is followed by a leap second. -/
  leap : 10 ^ 9 ≤ nano → second % 60 = 59
  deriving DecidableEq, Repr

namespace Timestamp

/-- The start of the year 1970. -/
def epoch : Timestamp :=
  ⟨Date.firstOf 1970 1 (by decide), 0, 0, by decide, by decide, by decide⟩

instance : Inhabited Timestamp := ⟨epoch⟩

/-- The whole milliseconds since `epoch`, negative before it. -/
def millis (t : Timestamp) : Int :=
  t.date.number * 86400000 + t.second * 1000 + t.nano / 10 ^ 6

/-- The years that timestamps may have. -/
def inRange (t : Timestamp) : Bool := -262143 ≤ t.date.year && t.date.year ≤ 262142

/-- The point in time that clocks show as `t` where they are `minutes` ahead of UTC. -/
def ofLocal (t : Timestamp) (minutes : Int) : Timestamp :=
  let s : Int := t.second - 60 * minutes
  have leap (n : Int) (h : n = s ∨ n = s + 86400 ∨ n = s - 86400) (hn : 0 ≤ n) :
      10 ^ 9 ≤ t.nano → n.toNat % 60 = 59 := by
    intro hl
    have := t.leap hl
    omega
  if h : 0 ≤ s ∧ s < 86400 then
    ⟨t.date, s.toNat, t.nano, by omega, t.nano_lt, leap s (by omega) h.1⟩
  else if h : s < 0 ∧ 0 ≤ s + 86400 then
    ⟨t.date.prev, (s + 86400).toNat, t.nano, by omega, t.nano_lt, leap _ (by omega) h.2⟩
  else if h : 86400 ≤ s ∧ s - 86400 < 86400 then
    ⟨t.date.next, (s - 86400).toNat, t.nano, by omega, t.nano_lt, leap _ (by omega) (by omega)⟩
  else t

/-- The timestamp with the given parts, if they name one.  The sixtieth second is a leap second. -/
def ofParts? (year : Int) (month day hour minute second nano : Nat) : Option Timestamp :=
  match Date.ofParts? year month day with
  | none => none
  | some date =>
    if h : hour < 24 ∧ minute < 60 ∧ second ≤ 60 ∧ nano < 10 ^ 9 then
      if hs : second = 60 then
        some ⟨date, hour * 3600 + minute * 60 + 59, nano + 10 ^ 9, by omega, by omega, by omega⟩
      else
        some ⟨date, hour * 3600 + minute * 60 + second, nano, by omega, by omega, by omega⟩
    else none

/-! ### Writing -/

/-- A number in decimal with at least the given number of digits. -/
def padded (width n : Nat) : List Char :=
  let ds := Nat.toDigits 10 n
  List.replicate (width - ds.length) '0' ++ ds

/-- A year: four digits, or a sign and at least four digits outside of them. -/
def yearChars (year : Int) : List Char :=
  if 0 ≤ year ∧ year ≤ 9999 then padded 4 year.natAbs
  else (if year < 0 then '-' else '+') :: padded 4 year.natAbs

/-- A fraction of a second: the fewest of 0, 3, 6 and 9 digits that are exact. -/
def fractionChars (nano : Nat) : List Char :=
  if nano = 0 then []
  else if nano % 10 ^ 6 = 0 then '.' :: padded 3 (nano / 10 ^ 6)
  else if nano % 10 ^ 3 = 0 then '.' :: padded 6 (nano / 10 ^ 3)
  else '.' :: padded 9 nano

/-- A timestamp up to the offset. -/
def bodyChars (t : Timestamp) : List Char :=
  let (second, nano) :=
    if 10 ^ 9 ≤ t.nano then (t.second % 60 + 1, t.nano - 10 ^ 9) else (t.second % 60, t.nano)
  yearChars t.date.year ++ '-' :: padded 2 t.date.month ++ '-' :: padded 2 t.date.day ++
    'T' :: padded 2 (t.second / 3600) ++ ':' :: padded 2 (t.second / 60 % 60) ++
    ':' :: padded 2 second ++ fractionChars nano

/-- The form of a timestamp in records, with the letter `Z` for UTC. -/
def toText (t : Timestamp) : String := String.ofList (t.bodyChars ++ ['Z'])

/-- The form of a timestamp in the key-value store, with a numeric offset. -/
def toOffsetText (t : Timestamp) : String := String.ofList (t.bodyChars ++ "+00:00".toList)

/-! ### Reading -/

/-- The value of decimal digits. -/
def decimalValue (ds : List Char) : Nat := ds.foldl (fun n c => 10 * n + (c.toNat - 48)) 0

/-- Read at most `most` digits, and at least `least`. -/
def readDigits (least most : Nat) (cs : List Char) : Option (Nat × List Char) :=
  let ds := (cs.take most).takeWhile Char.isDigit
  if ds.length < least then none else some (decimalValue ds, cs.drop ds.length)

/-- Read one given character. -/
def readChar (c : Char) (cs : List Char) : Option (List Char) :=
  match cs with
  | c' :: rest => if c' = c then some rest else none
  | [] => none

/-- Read the sign between date and time. -/
def readSeparator (cs : List Char) : Option (List Char) :=
  match cs with
  | c :: rest => if c = 'T' ∨ c = 't' ∨ c = ' ' then some rest else none
  | [] => none

/-- Read a fraction of a second, if there is one.  Digits after the ninth are dropped. -/
def readFraction (cs : List Char) : Option (Nat × List Char) :=
  match cs with
  | '.' :: rest =>
    let ds := rest.takeWhile Char.isDigit
    if ds = [] then none
    else
      let kept := ds.take 9
      some (decimalValue kept * 10 ^ (9 - kept.length), rest.drop ds.length)
  | _ => some (0, cs)

/-- Read two decimal digits. -/
def readTwo (cs : List Char) : Option (Nat × List Char) := readDigits 2 2 cs

/-- Read an offset in minutes.  The argument reads what stands between hours and minutes. -/
def readOffset (between : List Char → Option (List Char)) (cs : List Char) :
    Option (Int × List Char) :=
  match cs with
  | [] => none
  | c :: rest =>
    if c = 'Z' ∨ c = 'z' then some (0, rest)
    else if c = '+' ∨ c = '-' ∨ c = Char.ofNat 0x2212 then do
      let (hours, rest) ← readTwo rest
      let rest ← between rest
      let (minutes, rest) ← readTwo rest
      if 60 ≤ minutes ∨ 24 ≤ hours then none
      else
        let offset : Int := hours * 60 + minutes
        some (if c = '+' then offset else -offset, rest)
    else none

/-- The timestamp with the given local parts and offset, if it exists and is in range. -/
def ofReading? (year : Int) (month day hour minute second nano : Nat) (offset : Int) :
    Option Timestamp := do
  let t ← ofParts? year month day hour minute second nano
  let u := t.ofLocal offset
  if t.inRange && u.inRange then some u else none

/-- Read a timestamp in the profile for the Internet. -/
def strict? (text : String) : Option Timestamp := do
  let (year, cs) ← readDigits 4 4 text.toList
  let cs ← readChar '-' cs
  let (month, cs) ← readTwo cs
  let cs ← readChar '-' cs
  let (day, cs) ← readTwo cs
  let cs ← readSeparator cs
  let (hour, cs) ← readTwo cs
  let cs ← readChar ':' cs
  let (minute, cs) ← readTwo cs
  let cs ← readChar ':' cs
  let (second, cs) ← readTwo cs
  let (nano, cs) ← readFraction cs
  let (offset, cs) ← readOffset (readChar ':') cs
  if cs = [] then ofReading? year month day hour minute second nano offset else none

/-- Read a year of at most four digits, or of any length after a sign. -/
def readYear (cs : List Char) : Option (Int × List Char) :=
  let signed (negative : Bool) (rest : List Char) : Option (Int × List Char) :=
    match readDigits 1 rest.length rest with
    | some (n, rest) => some (if negative then -(n : Int) else n, rest)
    | none => none
  match cs with
  | '-' :: rest => signed true rest
  | '+' :: rest => signed false rest
  | _ =>
    match readDigits 1 4 cs with
    | some (n, rest) => some (n, rest)
    | none => none

/-- Read the offset of a lenient timestamp, where the letters `UTC` stand for zero. -/
def readLenientOffset (cs : List Char) : Option (Int × List Char) :=
  if (cs.take 3).map Char.toUpper = ['U', 'T', 'C'] then some (0, cs.drop 3)
  else readOffset (fun cs => some (cs.dropWhile fun c => c = ':' || Text.isWhiteSpace c)) cs

/-- Read a timestamp leniently: one or two digits for each part, white space between the parts, a
sign before the year, and blanks, colons or nothing inside the offset. -/
def lenient? (text : String) : Option Timestamp := do
  let trim := Text.trimStart
  let (year, cs) ← readYear (trim text.toList)
  let cs ← readChar '-' (trim cs)
  let (month, cs) ← readDigits 1 2 (trim cs)
  let cs ← readChar '-' (trim cs)
  let (day, cs) ← readDigits 1 2 (trim cs)
  let cs ← readSeparator cs
  let (hour, cs) ← readDigits 1 2 (trim cs)
  let cs ← readChar ':' (trim cs)
  let (minute, cs) ← readDigits 1 2 (trim cs)
  let cs ← readChar ':' (trim cs)
  let (second, cs) ← readDigits 1 2 (trim cs)
  let (nano, cs) ← readFraction cs
  let (offset, cs) ← readLenientOffset (trim cs)
  if trim cs = [] then ofReading? year month day hour minute second nano offset else none

end Timestamp

end TaskScheduler
