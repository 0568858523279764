import TaskScheduler.Context.Token
import TaskScheduler.Task.Error
import TaskScheduler.Time.Duration

/-!
# Run contexts

A context is what the stages of a run are given to see whether they should stop: a cancellation
token and perhaps a deadline.  `ContextStore` holds the tokens and the timers of all contexts
together with the clock.  A deadline that has passed wins over cancellation.
-/

namespace TaskScheduler

/-- A cancellation token and perhaps a deadline. -/
structure Context where
  /-- The token. -/
  token : TokenId
  /-- When the run has to be over. -/
  deadline : Option Instant
  deriving DecidableEq, Repr

/-- A timer that cancels a token when it is due. -/
structure Timer where
  /-- When the timer is due. -/
  due : Instant
  /-- The token that it cancels. -/
  token : TokenId
  deriving DecidableEq, Repr

/-- The clock, and the tokens and timers of all contexts. -/
structure ContextStore where
  /-- The present instant. -/
  now : Instant := 0
  /-- The tokens. -/
  tree : TokenTree := {}
  /-- The timers that have not fired, oldest first. -/
  timers : List Timer := []
  deriving DecidableEq, Repr, Inhabited

namespace ContextStore

/-- Whether a token is canceled. -/
def isCanceled (s : ContextStore) (i : TokenId) : Bool := s.tree.isCanceled i

/-- Why a context has ended, if it has. -/
def err (s : ContextStore) (c : Context) : Option TaskError :=
  if c.deadline.any fun d => decide (d ≤ s.now) then some .deadlineExceeded
  else if s.isCanceled c.token then some .canceled
  else none

/-- A context that ends only when it is canceled. -/
def background (s : ContextStore) : Context × ContextStore :=
  (⟨s.tree.size, none⟩, { s with tree := s.tree.addRoot })

/-- A context derived from a token.  A timeout that is not empty sets a deadline and a timer that
cancels the new token. -/
def childOf (s : ContextStore) (parent : TokenId) (timeout : Option Duration) :
    Context × ContextStore :=
  let token := s.tree.size
  let s := { s with tree := s.tree.addChild parent }
  match timeout.filter fun t => !t.isZero with
  | none => (⟨token, none⟩, s)
  | some t =>
    let due := s.now + t.nanos
    (⟨token, some due⟩, { s with timers := s.timers ++ [⟨due, token⟩] })

/-- Cancel a token and its descendants. -/
def cancel (s : ContextStore) (i : TokenId) : ContextStore := { s with tree := s.tree.cancel i }

/-- Fire the first of the timers that are due. -/
def fireDue (s : ContextStore) : List Timer → List Timer → ContextStore
  | kept, [] => { s with timers := kept }
  | kept, t :: rest =>
    if t.due ≤ s.now then { s.cancel t.token with timers := kept ++ rest }
    else fireDue s (kept ++ [t]) rest

/-- Fire one timer that is due, if there is one. -/
def fireTimer (s : ContextStore) : ContextStore := s.fireDue [] s.timers

/-- Fire all timers that are due. -/
def fireTimers (s : ContextStore) : ContextStore :=
  s.timers.foldl (fun s t => if t.due ≤ s.now then s.cancel t.token else s)
    { s with timers := s.timers.filter fun t => s.now < t.due }

/-- Let time pass up to an instant. -/
def passTo (s : ContextStore) (t : Instant) : ContextStore := { s with now := max s.now t }

/-- The time left until the deadline of a context. -/
def timeLeft (s : ContextStore) (c : Context) : Option Duration :=
  c.deadline.map fun d => Instant.since d s.now

end ContextStore

end TaskScheduler
