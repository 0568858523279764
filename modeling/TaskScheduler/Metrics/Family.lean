import TaskScheduler.Data.FiniteMap
import TaskScheduler.Text.Bytes

/-!
# Families of metrics

A `Family` has one child for every combination of label values that has been asked for.  It finds a
child by a `LabelKey`, a hash of the label values, and does not compare the values themselves: two
combinations with one key share the child, which goes on to show the labels that it was made with.
-/

namespace TaskScheduler

/-- What a `Family` makes of the label values to find the child that belongs to them. -/
abbrev LabelKey := List String → UInt64

/-- The hash FNV-1a with 64 bits of the label values one after the other. -/
def LabelKey.fnv : LabelKey := fun labels =>
  (labels.flatMap Bytes.ofString).foldl (fun h b => (h ^^^ b.toUInt64) * 0x100000001b3)
    0xcbf29ce484222325

/-- The children of a metric with labels. -/
structure Family (α : Type) where
  /-- The children by key, each with its label values. -/
  children : FiniteMap UInt64 (List String × α) := .empty

namespace Family

variable {α : Type}

/-- Change the child under a key.  One that is missing is made first, with the given labels and the
given content. -/
def update (f : Family α) (k : UInt64) (labels : List String) (new : α) (change : α → α) :
    Family α :=
  let child := f.children.getD k (labels, new)
  ⟨f.children.insert k (child.1, change child.2)⟩

/-- The children with their label values. -/
def series (f : Family α) : List (List String × α) := f.children.values

/-- What the family shows for a combination of label values. -/
def value? (f : Family α) (labels : List String) : Option α :=
  (f.series.find? fun child => child.1 = labels).map Prod.snd

end Family

end TaskScheduler
