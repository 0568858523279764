/-!
# Cancellation tokens

Tokens form a tree: a token may be the child of one that was made before it.  Canceling a token
cancels its descendants, and a child of a canceled token is canceled from the start.
-/

namespace TaskScheduler

/-- The place of a token in its tree. -/
abbrev TokenId := Nat

/-- A token of a tree. -/
structure Token where
  /-- The token from which it was derived. -/
  parent : Option TokenId
  /-- Whether it was canceled. -/
  canceled : Bool
  deriving DecidableEq, Repr

/-- All tokens in the order in which they were made. -/
structure TokenTree where
  /-- The tokens; the place in the list is the id. -/
  tokens : List Token := []
  deriving DecidableEq, Repr, Inhabited

namespace TokenTree

/-- The id of the next token. -/
def size (t : TokenTree) : Nat := t.tokens.length

/-- Whether a token is canceled. -/
def isCanceled (t : TokenTree) (i : TokenId) : Bool :=
  match t.tokens[i]? with
  | some k => k.canceled
  | none => false

/-- Add a token without a parent. -/
def addRoot (t : TokenTree) : TokenTree := ⟨t.tokens ++ [⟨none, false⟩]⟩

/-- Add a child of a token.  It is canceled if its parent is. -/
def addChild (t : TokenTree) (parent : TokenId) : TokenTree :=
  ⟨t.tokens ++ [⟨some parent, t.isCanceled parent⟩]⟩

/-- Cancel one token and every token whose parent is canceled, in the order in which they were made.
A parent is always made before its children, so one pass reaches all descendants. -/
def propagate (i : TokenId) : List Token → List Token → List Token
  | done, [] => done
  | done, k :: rest =>
    let fromParent := match k.parent with
      | none => false
      | some p => (done[p]?.map Token.canceled).getD false
    let hit := decide (done.length = i) || fromParent
    propagate i (done ++ [{ k with canceled := k.canceled || hit }]) rest

/-- Cancel a token and its descendants. -/
def cancel (t : TokenTree) (i : TokenId) : TokenTree := ⟨propagate i [] t.tokens⟩

end TokenTree

end TaskScheduler
