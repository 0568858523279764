import TaskScheduler.Proofs.Json.Accepted
import TaskScheduler.Proofs.Queue.Payload
import TaskScheduler.Proofs.Task.Envelope

/-!
# Envelopes written again

Bodies of tasks may be written by anyone: with the members in any order and others between them,
with escapes and blanks, as an object or as an array.  An envelope that was read from such a body,
and whose payload has no floating-point number, is written in a body that means the same.  The
reader has counted the levels of the payload from the outside of the first text; the payload stands
at the same level of the second, so there is room for it.
-/

namespace TaskScheduler.Envelope

open Json

/-- The payload that `ofParts?` takes for an envelope is a value as readers make it. -/
theorem fits_of_ofParts? {taskType data : Form} {timeoutMs : Option Form} {e : Envelope}
    (h : ofParts? taskType data timeoutMs = some e) : e.data.Fits memberDepth := by
  unfold ofParts? at h
  split at h
  next hdata _ =>
    obtain rfl := Option.some.inj h
    exact Form.fits_of_value? hdata
  next => cases h

/-- The payload of an envelope that `ofForm?` reads fits the levels that are left for it, in each
form of a body. -/
theorem fits_of_ofForm? {f : Form} {e : Envelope} (h : ofForm? f = some e) :
    e.data.Fits memberDepth := by
  unfold ofForm? at h
  split at h
  next =>
    split at h
    next => cases h
    next =>
      split at h
      next => exact fits_of_ofParts? h
      next => cases h
  next => exact fits_of_ofParts? h
  next => exact fits_of_ofParts? h
  next => cases h

/-- The payload of an envelope that `decode?` reads from a text fits the levels that are left for
it. -/
theorem fits_of_decode? {text : String} {e : Envelope} (h : decode? text = some e) :
    e.data.Fits memberDepth := by
  unfold decode? at h
  split at h
  next => exact fits_of_ofForm? h
  next => cases h

/-- An envelope that was read from any body and has no floating-point number in its payload is read
again from its own body, and a queue that holds this body hands out the task with the same type,
payload and timeout.  There is room for the levels of the payload because there was in the first
body. -/
theorem decode?_reencode {text : String} {e : Envelope} (h : decode? text = some e)
    (hf : e.data.FloatFree) :
    decode? e.encode = some e ∧ e.data.depth ≤ memberDepth ∧
      ∀ id, ∃ task, RedisQueue.taken id (some (Bytes.ofString e.encode)) = .ok task ∧
        e.IsHandedOutAs id task := by
  obtain ⟨hcanonical, hdepth⟩ := fits_of_decode? h
  refine ⟨?_, hdepth, fun id => ?_⟩
  · rw [decode?_encode e hf hcanonical, if_pos hdepth]
  · exact eq_popped_iff.1 ((RedisQueue.taken_encode id e hf hcanonical).1.2 hdepth)

/-- A body with an unknown member that is skipped, the members in another order, blanks, escapes, a
repeated key and the greatest timeout. -/
def foreignBody : String :=
  "\x7b \"extra\" : [[1.5e3]], \"timeout_ms\":18446744073709551615,\"data\":" ++
    "\x7b\"b\":1,\"a\":[\"\\u00e9\\ud83d\\ude00\\/\",-7],\"b\":[null]\x7d," ++
    " \"type\":\"ma\\u0069l\"\x7d"

/-- The envelope in `foreignBody`. -/
def foreignTask : Envelope where
  taskType := "mail"
  data := .obj [("a", .arr [.str "é😀/", .int ⟨-7, by decide, by decide⟩]), ("b", .arr [.null])]
  timeoutMs := some 18446744073709551615

/-- `foreignTask` is read from `foreignBody`, and again from its own body. -/
theorem decode?_reencode_foreignTask : decode? foreignBody = some foreignTask ∧
    foreignTask.data.FloatFree ∧ decode? foreignTask.encode = some foreignTask := by
  have hread : decode? foreignBody = some foreignTask := by decide +kernel
  have hf : foreignTask.data.FloatFree := ⟨⟨trivial, trivial, trivial⟩, ⟨trivial, trivial⟩, trivial⟩
  exact ⟨hread, hf, (decode?_reencode hread hf).1⟩

end TaskScheduler.Envelope
