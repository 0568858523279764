import TaskScheduler.Text.Bytes

/-!
# Glob patterns

Patterns over byte strings: `*` stands for any bytes, `?` for one byte, brackets for one byte out of
a set, and a backslash takes the meaning off the byte after it.  A bracket that is not closed takes
the rest of the pattern.
-/

namespace TaskScheduler.Glob

/-- The byte of an ASCII character. -/
def byte (c : Char) : UInt8 := UInt8.ofNat c.toNat

/-- Whether a byte lies between two others, in either order. -/
def between (a z c : UInt8) : Bool := (a ≤ c && c ≤ z) || (z ≤ c && c ≤ a)

/-- Whether a byte is in the set that a pattern lists up to a closing bracket, and what follows the
bracket. -/
def inSet (c : UInt8) (p : List UInt8) : Bool × List UInt8 :=
  match p with
  | [] => (false, [])
  | [a] => (a ≠ byte ']' && a == c, [])
  | [a, b] =>
    if a = byte ']' then (false, [b])
    else if a = byte '\\' then (b == c, [])
    else if b = byte ']' then (a == c, [])
    else (a == c || b == c, [])
  | a :: b :: z :: rest =>
    if a = byte ']' then (false, b :: z :: rest)
    else if a = byte '\\' then
      (b == c || (inSet c (z :: rest)).1, (inSet c (z :: rest)).2)
    else if b = byte '-' then
      (between a z c || (inSet c rest).1, (inSet c rest).2)
    else
      (a == c || (inSet c (b :: z :: rest)).1, (inSet c (b :: z :: rest)).2)
termination_by p.length

theorem length_inSet (c : UInt8) (p : List UInt8) : (inSet c p).2.length ≤ p.length := by
  fun_induction inSet c p <;> simp_all <;> omega

/-- Whether a byte is in a bracket set, which a `^` in front turns into its complement. -/
def inBrackets (c : UInt8) (p : List UInt8) : Bool × List UInt8 :=
  match p with
  | 94 :: rest =>
    let (found, after) := inSet c rest
    (!found, after)
  | _ => inSet c p

theorem length_inBrackets (c : UInt8) (p : List UInt8) :
    (inBrackets c p).2.length ≤ p.length := by
  unfold inBrackets
  split
  · have := length_inSet c (by assumption)
    simp only [List.length_cons]
    omega
  · exact length_inSet c p

/-- Whether a pattern matches a whole byte string. -/
def isMatch (pattern text : List UInt8) : Bool :=
  match pattern, text with
  | [], text => text.isEmpty
  | p :: ps, [] => (p :: ps).all (· == byte '*')
  | p :: ps, c :: cs =>
    if p = byte '*' then isMatch ps (c :: cs) || isMatch (p :: ps) cs
    else if p = byte '?' then isMatch ps cs
    else if p = byte '[' then
      have _shorter := length_inBrackets c ps
      (inBrackets c ps).1 && isMatch (inBrackets c ps).2 cs
    else if p = byte '\\' then
      match ps with
      | q :: qs => q == c && isMatch qs cs
      | [] => p == c && cs.isEmpty
    else p == c && isMatch ps cs
termination_by (pattern.length, text.length)
decreasing_by
  all_goals simp_wf
  all_goals omega

end TaskScheduler.Glob
