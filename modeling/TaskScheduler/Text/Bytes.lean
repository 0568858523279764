/-!
# Byte strings

Keys, members and field values of the key-value store are byte strings.  Text enters the store in
its UTF-8 form and leaves it only when the bytes are valid UTF-8; `ofString_injective` and
`toString?_ofString` say that nothing is lost on the way.
-/

namespace TaskScheduler

/-- A byte string. -/
abbrev Bytes := List UInt8

namespace Bytes

/-- The UTF-8 form of a text. -/
def ofString (s : String) : Bytes := s.toByteArray.data.toList

/-- The text whose UTF-8 form the bytes are, if they are valid UTF-8. -/
def toString? (b : Bytes) : Option String := String.fromUTF8? ⟨b.toArray⟩

theorem toString?_ofString (s : String) : toString? (ofString s) = some s := by
  have h : (⟨(ofString s).toArray⟩ : ByteArray) = s.toByteArray := by simp [ofString]
  simp only [toString?, h, String.fromUTF8?, s.isValidUTF8, dite_true]
  rfl

theorem ofString_injective {s t : String} (h : ofString s = ofString t) : s = t := by
  have hs := toString?_ofString s
  rw [h, toString?_ofString] at hs
  exact (Option.some.inj hs).symm

theorem ofString_append (s t : String) : ofString (s ++ t) = ofString s ++ ofString t := by
  simp [ofString, String.toByteArray_append]

/-! ### Bytes shown as text -/

/-- What the next byte of a multi-byte character must be: the value read so far, the number of
bytes still owed, and the range of the next one. -/
structure Owed where
  /-- The code point read so far. -/
  value : Nat
  /-- How many bytes are still to come, this one included. -/
  count : Nat
  /-- The least next byte. -/
  low : Nat
  /-- The greatest next byte. -/
  high : Nat

/-- The sign shown in place of bytes that are no character. -/
def replacement : Char := Char.ofNat 0xFFFD

/-- Begin a character with a byte: what it shows at once, and what it leaves owed. -/
def start (b : Nat) : List Char × Option Owed :=
  if b < 0x80 then ([Char.ofNat b], none)
  else if 0xC2 ≤ b ∧ b ≤ 0xDF then ([], some ⟨b - 0xC0, 1, 0x80, 0xBF⟩)
  else if b = 0xE0 then ([], some ⟨0, 2, 0xA0, 0xBF⟩)
  else if b = 0xED then ([], some ⟨0xD, 2, 0x80, 0x9F⟩)
  else if 0xE1 ≤ b ∧ b ≤ 0xEF then ([], some ⟨b - 0xE0, 2, 0x80, 0xBF⟩)
  else if b = 0xF0 then ([], some ⟨0, 3, 0x90, 0xBF⟩)
  else if 0xF1 ≤ b ∧ b ≤ 0xF3 then ([], some ⟨b - 0xF0, 3, 0x80, 0xBF⟩)
  else if b = 0xF4 then ([], some ⟨4, 3, 0x80, 0x8F⟩)
  else ([replacement], none)

/-- Show bytes as text, with one replacement sign for every longest piece that begins a character
and does not finish it, and for every byte that begins none. -/
def showFrom : Option Owed → List UInt8 → List Char
  | none, [] => []
  | some _, [] => [replacement]
  | none, b :: rest =>
    let (shown, owed) := start b.toNat
    shown ++ showFrom owed rest
  | some o, b :: rest =>
    let n := b.toNat
    if o.low ≤ n ∧ n ≤ o.high then
      let value := o.value * 64 + n % 64
      if o.count = 1 then Char.ofNat value :: showFrom none rest
      else showFrom (some ⟨value, o.count - 1, 0x80, 0xBF⟩) rest
    else
      let (shown, owed) := start n
      replacement :: (shown ++ showFrom owed rest)

/-- The text that stands for a byte string when it is shown: its own text when it has one. -/
def display (b : Bytes) : String := String.ofList (showFrom none b)

/-! ### Order -/

/-- Whether the first byte string comes before the second, byte by byte. -/
def before : Bytes → Bytes → Bool
  | _, [] => false
  | [], _ :: _ => true
  | a :: as, b :: bs => a < b || (a == b && before as bs)

end Bytes

end TaskScheduler
