/-
  CompilerRemarks.Path.Normal

  Lexical normalisation of a path against a base, and the path that leads
  from one directory to another. Neither looks at any file.
-/
import CompilerRemarks.Path.Basic

namespace CompilerRemarks.Path

/-! ## Normalisation -/

/-- Takes one step back, unless that would leave the root. -/
def stepBack (cs : List Component) : List Component :=
  match cs with
  | [.root] => [.root]
  | _ => cs.dropLast

/-- Follows the steps of a path from `start`: `..` steps back. -/
def follow (start : List Component) (steps : List Component) : List Component :=
  steps.foldl
    (fun cs step => match step with
      | .parent => stepBack cs
      | .current => cs
      | _ => cs ++ [step])
    start

/-- Where the first step of a path leads from `base`. Nothing lies above the
    root or above the empty path. -/
def firstStep (base : Path) : Component → List Component
  | .root => [.root]
  | .current => base.components
  | .parent => (base.parent?.getD base).components
  | .name s => base.components ++ [.name s]

/-- The absolute form of a path taken from `base`, with `.` and `..` resolved
    in its text. The empty path stands for the base itself. -/
def normalize (p base : Path) : Path :=
  match p.components with
  | [] => base
  | first :: rest => ofComponents (follow (firstStep base first) rest)

/-! ## Relative paths -/

/-- The steps from `base` to `target` after their common start, or `none`
    where `base` climbs by a `..` that cannot be undone. -/
def stepsFrom? (started : Bool) : List Component → List Component → Option (List Component)
  | [], [] => some []
  | target, [] => some target
  | [], _ :: base => (stepsFrom? true [] base).map (.parent :: ·)
  | a :: target, b :: base =>
    if !started && a == b then stepsFrom? false target base
    else if b == .current then (stepsFrom? true target base).map (a :: ·)
    else if b == .parent then none
    else some (.parent :: base.map (fun _ => .parent) ++ a :: target)

/-- The path that leads from `base` to `target`. An absolute target cannot be
    reached from a relative base and stands for itself. -/
def relative? (target base : Path) : Option Path :=
  if target.isAbsolute != base.isAbsolute then
    if target.isAbsolute then some target else none
  else (stepsFrom? false target.components base.components).map ofComponents

end CompilerRemarks.Path
