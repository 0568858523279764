import Mathlib.Data.List.Infix
import TaskScheduler.Text.Bytes

/-!
# The bytes of texts

A byte string is a text when it is the UTF-8 form of some characters.  An ASCII byte in it is a
character of its own, so it can be exchanged for another one; and at every place something can be
put in, though perhaps only the bytes of the character that stands around the place.
-/

namespace TaskScheduler.Bytes

/-! ### Bytes of characters -/

/-- `ofString` gives the bytes of the characters, one after the other. -/
theorem ofString_ofList_eq (cs : List Char) :
    ofString (String.ofList cs) = cs.flatMap String.utf8EncodeChar := by
  rw [ofString, String.toByteArray_ofList, List.utf8Encode, List.data_toByteArray]

/-- The bytes are the UTF-8 form of a text. -/
def IsUtf8 (b : Bytes) : Prop := ∃ cs : List Char, b = cs.flatMap String.utf8EncodeChar

/-- `IsUtf8` holds of the bytes of a text. -/
theorem isUtf8_ofString (s : String) : IsUtf8 (ofString s) :=
  ⟨s.toList, by rw [← ofString_ofList_eq, String.ofList_toList]⟩

/-- `toString?` reads a text from its own bytes and from no others. -/
theorem toString?_eq_some_iff {b : Bytes} {s : String} : toString? b = some s ↔ b = ofString s := by
  constructor
  · intro h
    unfold toString? String.fromUTF8? at h
    split at h
    next hvalid =>
      rw [← Option.some.inj h, ofString]
      rfl
    next => cases h
  · rintro rfl
    exact toString?_ofString s

/-- `IsUtf8` holds of the bytes from which `toString?` reads a text. -/
theorem isUtf8_iff_isSome {b : Bytes} : IsUtf8 b ↔ (toString? b).isSome := by
  rw [Option.isSome_iff_exists]
  simp only [toString?_eq_some_iff]
  constructor
  · rintro ⟨cs, rfl⟩
    exact ⟨String.ofList cs, (ofString_ofList_eq cs).symm⟩
  · rintro ⟨s, rfl⟩
    exact isUtf8_ofString s

/-- Every byte of a character that is not ASCII is beyond the ASCII bytes. -/
theorem le_of_mem_utf8EncodeChar {c : Char} (hc : ¬ c.toNat ≤ 127) :
    ∀ a ∈ String.utf8EncodeChar c, 128 ≤ a.toNat := by
  unfold String.utf8EncodeChar
  dsimp only
  rw [if_neg (show ¬ c.val.toNat ≤ 127 from hc)]
  split_ifs <;>
    simp only [List.mem_cons, List.not_mem_nil, or_false, forall_eq_or_imp, forall_eq,
      UInt8.toNat_ofNat'] <;> omega

/-- An ASCII byte is a character of its own. -/
theorem utf8EncodeChar_of_mem {c : Char} {a : UInt8} (ha : a.toNat < 128)
    (h : a ∈ String.utf8EncodeChar c) : String.utf8EncodeChar c = [a] ∧ c.toNat = a.toNat := by
  by_cases hc : c.toNat ≤ 127
  · have hone : String.utf8EncodeChar c = [UInt8.ofNat c.toNat] := if_pos hc
    rw [hone] at h
    obtain rfl := List.mem_singleton.1 h
    refine ⟨hone, ?_⟩
    rw [UInt8.toNat_ofNat']
    omega
  · exact absurd (le_of_mem_utf8EncodeChar hc a h) (by omega)

/-- The byte of an ASCII character is in `ofString` of a text when the character is in the text. -/
theorem mem_ofString_iff {c : Char} (hc : c.toNat < 128) (s : String) :
    UInt8.ofNat c.toNat ∈ ofString s ↔ c ∈ s.toList := by
  have hbyte : (UInt8.ofNat c.toNat).toNat = c.toNat := by
    rw [UInt8.toNat_ofNat']
    omega
  have hself : String.utf8EncodeChar c = [UInt8.ofNat c.toNat] := if_pos (Nat.le_of_lt_succ hc)
  rw [← String.ofList_toList (s := s), ofString_ofList_eq, List.mem_flatMap, String.toList_ofList]
  constructor
  · rintro ⟨d, hd, hmem⟩
    obtain ⟨-, hcode⟩ := utf8EncodeChar_of_mem (by rwa [hbyte]) hmem
    rw [hbyte] at hcode
    rwa [Char.toNat_inj.1 hcode] at hd
  · intro hmem
    exact ⟨c, hmem, by rw [hself]; exact List.mem_singleton_self _⟩

/-! ### Places in a text -/

/-- An ASCII byte cuts a text into the texts before and behind it. -/
theorem exists_split {cs : List Char} {x y : Bytes} {a : UInt8} (ha : a.toNat < 128)
    (h : cs.flatMap String.utf8EncodeChar = x ++ a :: y) : IsUtf8 x ∧ IsUtf8 y := by
  induction cs generalizing x with
  | nil => simp at h
  | cons c cs ih =>
    rw [List.flatMap_cons, List.append_eq_append_iff] at h
    rcases h with ⟨x', rfl, hrest⟩ | ⟨y', hc, hrest⟩
    · obtain ⟨⟨before, rfl⟩, hy⟩ := ih hrest
      exact ⟨⟨c :: before, List.flatMap_cons.symm⟩, hy⟩
    · cases y' with
      | nil =>
        obtain ⟨⟨before, hbefore⟩, hy⟩ := ih (x := []) hrest.symm
        refine ⟨⟨[c], ?_⟩, hy⟩
        rw [List.flatMap_singleton, hc, List.append_nil]
      | cons b y' =>
        obtain ⟨rfl, rfl⟩ := List.cons.inj hrest
        obtain ⟨hone, -⟩ := utf8EncodeChar_of_mem (c := c) ha (by simp [hc])
        rw [hc, List.append_eq_singleton_iff] at hone
        simp only [List.cons.injEq, reduceCtorEq, and_false, or_false] at hone
        obtain ⟨rfl, -, rfl⟩ := hone
        exact ⟨⟨[], rfl⟩, ⟨cs, rfl⟩⟩

/-- `IsUtf8` holds of two texts in a row. -/
theorem IsUtf8.append {x y : Bytes} (hx : IsUtf8 x) (hy : IsUtf8 y) : IsUtf8 (x ++ y) := by
  obtain ⟨cs, rfl⟩ := hx
  obtain ⟨ds, rfl⟩ := hy
  exact ⟨cs ++ ds, List.flatMap_append.symm⟩

/-- `IsUtf8` holds of an ASCII byte. -/
theorem isUtf8_singleton {a : UInt8} (ha : a.toNat < 128) : IsUtf8 [a] := by
  have hcode : (Char.ofNat a.toNat).val.toNat = a.toNat := by
    rw [Char.ofNat, dif_pos (Or.inl (by omega))]
    rfl
  refine ⟨[Char.ofNat a.toNat], ?_⟩
  have hle : (Char.ofNat a.toNat).val.toNat ≤ 127 := by omega
  rw [List.flatMap_singleton, show String.utf8EncodeChar (Char.ofNat a.toNat) = _ from if_pos hle,
    hcode, UInt8.ofNat_toNat]

/-- `IsUtf8` holds of the bytes of a character. -/
theorem isUtf8_utf8EncodeChar (c : Char) : IsUtf8 (String.utf8EncodeChar c) :=
  ⟨[c], by rw [List.flatMap_singleton]⟩

/-- An ASCII byte of a text can be exchanged for another one. -/
theorem IsUtf8.exchange {x y : Bytes} {a b : UInt8} (h : IsUtf8 (x ++ a :: y)) (ha : a.toNat < 128)
    (hb : b.toNat < 128) : IsUtf8 (x ++ b :: y) := by
  obtain ⟨cs, hcs⟩ := h
  obtain ⟨hx, hy⟩ := exists_split ha hcs.symm
  exact hx.append ((isUtf8_singleton hb).append hy)

/-- A place inside a character is followed by the rest of it, and something without a given ASCII
byte can be put in: the rest, and then the beginning once more. -/
theorem exists_insert_char {c : Char} {x p : Bytes} (hc : String.utf8EncodeChar c = x ++ p)
    (hx : x ≠ []) (hp : p ≠ []) {a : UInt8} (ha : a.toNat < 128) :
    ∃ z, z ≠ [] ∧ a ∉ z ∧ IsUtf8 (x ++ (z ++ p)) := by
  refine ⟨p ++ x, by simp [hp], fun hmem => ?_, ?_⟩
  · have hone := (utf8EncodeChar_of_mem ha (by rw [hc]; simpa [or_comm] using hmem)).1
    have hlength : 2 ≤ (String.utf8EncodeChar c).length := by
      rw [hc, List.length_append]
      have := List.length_pos_iff.2 hx
      have := List.length_pos_iff.2 hp
      omega
    rw [hone] at hlength
    simp at hlength
  · have htwice : x ++ (p ++ x ++ p) = String.utf8EncodeChar c ++ String.utf8EncodeChar c := by
      simp only [hc, List.append_assoc]
    rw [htwice]
    exact (isUtf8_utf8EncodeChar c).append (isUtf8_utf8EncodeChar c)

/-- Between two texts any other ASCII byte can be put in. -/
theorem IsUtf8.exists_insert_between {x y : Bytes} (hx : IsUtf8 x) (hy : IsUtf8 y) {a b : UInt8}
    (hb : b.toNat < 128) (hne : a ≠ b) : ∃ z, z ≠ [] ∧ a ∉ z ∧ IsUtf8 (x ++ (z ++ y)) :=
  ⟨[b], List.cons_ne_nil b [], by simpa using hne, hx.append ((isUtf8_singleton hb).append hy)⟩

/-- At every place of a text something without a given ASCII byte can be put in. -/
theorem IsUtf8.exists_insert {x y : Bytes} (h : IsUtf8 (x ++ y)) {a b : UInt8} (ha : a.toNat < 128)
    (hb : b.toNat < 128) (hne : a ≠ b) : ∃ z, z ≠ [] ∧ a ∉ z ∧ IsUtf8 (x ++ (z ++ y)) := by
  obtain ⟨cs, hcs⟩ := h
  induction cs generalizing x with
  | nil =>
    obtain ⟨rfl, rfl⟩ := List.append_eq_nil_iff.1 hcs
    exact exists_insert_between ⟨[], rfl⟩ ⟨[], rfl⟩ hb hne
  | cons c cs ih =>
    have hchar := isUtf8_utf8EncodeChar c
    have htail : IsUtf8 (cs.flatMap String.utf8EncodeChar) := ⟨cs, rfl⟩
    rw [List.flatMap_cons] at hcs
    rcases List.append_eq_append_iff.1 hcs with ⟨p, hc, rfl⟩ | ⟨x', rfl, hrest⟩
    · rcases eq_or_ne x [] with rfl | hx
      · rw [List.nil_append] at hc
        exact exists_insert_between ⟨[], rfl⟩ (hc ▸ hchar.append htail) hb hne
      rcases eq_or_ne p [] with rfl | hp
      · exact exists_insert_between (by rwa [hc, List.append_nil] at hchar) htail hb hne
      obtain ⟨z, hz, haz, htext⟩ := exists_insert_char hc hx hp ha
      have hwhole := htext.append htail
      simp only [List.append_assoc] at hwhole
      exact ⟨z, hz, haz, hwhole⟩
    · obtain ⟨z, hz, haz, htext⟩ := ih hrest.symm
      refine ⟨z, hz, haz, ?_⟩
      rw [List.append_assoc]
      exact hchar.append htext

end TaskScheduler.Bytes
