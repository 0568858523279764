import TaskScheduler.Proofs.Json.RoundTrip
import TaskScheduler.Task.Envelope

/-!
# Envelopes read back

The body of a task is written as an object around its payload, and the object counts as a level of
nesting.  A payload without floating-point numbers comes back from the body exactly if there is room
for that level; the type and the timeout come back in any case.
-/

namespace TaskScheduler

namespace Json

/-! ### Members -/

/-- `keyed?` finds the keys of written members again. -/
theorem keyed?_map (ms : List (String × Form)) :
    keyed? (ms.map fun m => (piecesOf m.1, m.2)) = some ms := by
  induction ms with
  | nil => rfl
  | cons m ms ih =>
    rw [List.map_cons, keyed?, textOf?_piecesOf, ih]

/-- `Form.word?` reads a word back from its form. -/
theorem Form.word?_ofInt (n : UInt64) : Form.word? (.num (.ofInt n.toNat)) = some n := by
  have hvalue : (NumberForm.ofInt n.toNat).value? = some (.int (.ofWord n)) :=
    NumberForm.value?_ofInt (.ofWord n)
  have hnonneg : 0 ≤ (Integer.ofWord n).val := Int.natCast_nonneg n.toNat
  rw [Form.word?, hvalue]
  dsimp only
  rw [if_pos hnonneg, show (Integer.ofWord n).val.toNat = n.toNat from rfl, UInt64.ofNat_toNat]

end Json

namespace Envelope

open Json

/-! ### The body of a task -/

/-- The members of the body of a task. -/
def members (e : Envelope) : List (String × Form) :=
  [("type", .str (piecesOf e.taskType)), ("data", e.data.form)] ++
    match e.timeoutMs with
    | none => []
    | some ms => [("timeout_ms", .num (.ofInt ms.toNat))]

/-- The `form` of an envelope is the object of its `members`. -/
theorem form_eq (e : Envelope) : e.form = .obj (e.members.map fun m => (piecesOf m.1, m.2)) := by
  obtain ⟨taskType, data, _ | ms⟩ := e <;> rfl

/-- The `form` of an envelope is sound. -/
theorem form_isSound (e : Envelope) : e.form.IsSound := by
  have hk := piecesOf_isSound
  have hdata := Json.form_isSound e.data
  obtain ⟨taskType, data, _ | ms⟩ := e
  · exact ⟨hk _, hk taskType, hk _, hdata, trivial⟩
  · exact ⟨hk _, hk taskType, hk _, hdata, hk _, NumberForm.ofInt_isSound _, trivial⟩

/-- `ofParts?` makes the envelope again of its parts, with what the reader makes of the payload. -/
theorem ofParts?_eq (e : Envelope) :
    ofParts? (.str (piecesOf e.taskType)) e.data.form
        (e.timeoutMs.map fun ms => .num (.ofInt ms.toNat)) =
      (e.data.form.value? memberDepth).map fun data => { e with data := data } := by
  have htimeout : ((e.timeoutMs.map fun ms => Form.num (.ofInt ms.toNat)).map
      (Form.nullable? Form.word?)).getD (some none) = some e.timeoutMs := by
    obtain ⟨taskType, data, _ | ms⟩ := e
    · rfl
    · rw [Option.map_some, Option.map_some, Option.getD_some]
      exact congrArg (Option.map some) (Form.word?_ofInt ms)
  rw [ofParts?, htimeout, Form.text?, textOf?_piecesOf]
  cases e.data.form.value? memberDepth <;> rfl

/-- `decode?` reads an envelope back with its type and its timeout, if the payload can be read at
all. -/
theorem decode?_encode_eq (e : Envelope) :
    decode? e.encode =
      (e.data.form.value? memberDepth).map fun data => { e with data := data } := by
  have hparts := ofParts?_eq e
  rw [decode?, encode, String.toList_ofList, Form.ofText?_render e.form_isSound]
  dsimp only
  rw [form_eq, ofForm?, keyed?_map]
  obtain ⟨taskType, data, _ | ms⟩ := e <;> exact hparts

/-- `decode?` reads an envelope back exactly if its payload is nested at most `memberDepth`
levels. -/
theorem decode?_encode (e : Envelope) (hf : e.data.FloatFree) (hc : e.data.Canonical) :
    decode? e.encode = if e.data.depth ≤ memberDepth then some e else none := by
  rw [decode?_encode_eq, value?_form memberDepth e.data hf hc]
  by_cases hdepth : e.data.depth ≤ memberDepth <;> simp [hdepth]

end Envelope

end TaskScheduler
