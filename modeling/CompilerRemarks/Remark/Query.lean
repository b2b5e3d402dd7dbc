/-
  CompilerRemarks.Remark.Query

  The remarks inside a range, grouped by pass in order of first appearance,
  and the pick list over the groups.
-/
import CompilerRemarks.Remark.Basic

namespace CompilerRemarks

/-- Remarks in range: all of them, and by pass. -/
structure Grouped where
  all : List Remark
  byPass : List (String × List Remark)
  deriving DecidableEq, Repr

namespace Grouped

/-! ## Grouping -/

/-- Nothing in range. -/
def empty : Grouped := ⟨[], []⟩

/-- Adds a remark to the group of its pass; a new pass gets a group at the end. -/
def insertGroup (r : Remark) : List (String × List Remark) → List (String × List Remark)
  | [] => [(r.pass, [r])]
  | (pass, group) :: rest =>
    if pass == r.pass then (pass, group ++ [r]) :: rest
    else (pass, group) :: insertGroup r rest

/-- Adds a remark. -/
def insert (g : Grouped) (r : Remark) : Grouped :=
  ⟨g.all ++ [r], insertGroup r g.byPass⟩

/-! ## The pick list -/

/-- The label of the group that holds every remark. -/
def allLabel : String := "All remarks"

/-- The only label when nothing is in range. -/
def noneLabel : String := "No remarks found in range"

/-- The number of remarks. -/
def size (g : Grouped) : Nat := g.all.length

/-- Whether nothing is in range. -/
def isEmpty (g : Grouped) : Bool := g.all.isEmpty

/-- The labels: the group of all remarks first, then each pass. -/
def choices (g : Grouped) : List String :=
  if g.isEmpty then [noneLabel] else allLabel :: g.byPass.map (·.1)

/-- The remarks behind a label; an unknown label has none. -/
def select (g : Grouped) (label : String) : List Remark :=
  if label == allLabel then g.all else (g.byPass.lookup label).getD []

end Grouped

/-! ## Queries -/

/-- Why a query has no answer. -/
inductive QueryError where
  /-- The range starts after it ends. -/
  | inverted (range : Range)
  deriving DecidableEq, Repr

/-- The wording of a query error. -/
def QueryError.message : QueryError → String
  | .inverted range => "range starts after it ends: " ++ range.text

/-- The remarks of a list whose positions lie in a range. -/
def Remark.query (remarks : List Remark) (range : Range) : Except QueryError Grouped :=
  if range.isInverted then .error (.inverted range)
  else .ok ((remarks.filter fun r => range.contains r.location.position).foldl
    Grouped.insert Grouped.empty)

end CompilerRemarks
