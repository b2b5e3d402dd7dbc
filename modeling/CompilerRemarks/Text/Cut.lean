/-
  CompilerRemarks.Text.Cut

  Cutting a list after each of its separators.
-/

namespace CompilerRemarks.Text

variable {α : Type} [BEq α]

/-- The parts of a list that end with a separator. -/
def cut (separator : α) (xs : List α) : List (List α) :=
  (xs.splitOn separator).dropLast.map (· ++ [separator])

/-- What follows the last separator. -/
def leftover (separator : α) (xs : List α) : List α :=
  (xs.splitOn separator).getLast (List.splitOn_ne_nil separator xs)

end CompilerRemarks.Text
