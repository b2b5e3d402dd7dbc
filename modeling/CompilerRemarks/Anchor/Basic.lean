/-
  CompilerRemarks.Anchor.Basic

  Anchors: the extents of functions and loops, where an editor offers to
  show remarks.
-/
import CompilerRemarks.Remark.Encoding

namespace CompilerRemarks

/-- What an anchor marks. -/
inductive Anchor.Kind where
  | function
  | loop
  deriving DecidableEq, Repr

/-- The name of a kind of anchor. -/
def Anchor.Kind.name : Anchor.Kind → String
  | .function => "function"
  | .loop => "loop"

/-- The extent of a function or loop. -/
structure Anchor where
  kind : Anchor.Kind
  name : Option String
  range : Range
  deriving DecidableEq, Repr

namespace Anchor

/-- Order by start, then by end. -/
def le (a b : Anchor) : Bool :=
  if a.range.first == b.range.first then a.range.last.le b.range.last
  else a.range.first.le b.range.first

/-- Anchors in order; those with equal ranges stay as they are. -/
def sorted (anchors : List Anchor) : List Anchor :=
  anchors.mergeSort le

/-- An anchor as an object; a name that it lacks is left out. -/
def toJson (a : Anchor) : Json :=
  .object ([("kind", .string a.kind.name)] ++
    (a.name.map fun n => ("name", Json.string n)).toList ++ [("range", a.range.toJson)])

end Anchor

end CompilerRemarks
