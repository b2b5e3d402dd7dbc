/-
  CompilerRemarks.Shell.Glob

  Names of files that match a pattern, directory by directory.
-/
import CompilerRemarks.Shell.Machine

namespace CompilerRemarks.Shell

/-- The parts of a pattern between slashes; `part` is the one being read,
    reversed. -/
def patternParts (part : List Marked) : List Marked → List (List Marked)
  | [] => [part.reverse]
  | c :: rest => if c.1 == '/' then part.reverse :: patternParts [] rest else patternParts (c :: part) rest

/-- A path that was found so far: its text and its place. -/
structure Found where
  text : List Char
  place : Place

/-- How names are matched. -/
structure GlobStyle where
  extended : Bool
  hiddenToo : Bool
  anyCase : Bool

/-- A pattern and names without regard to case. -/
def GlobStyle.fold (style : GlobStyle) (c : Char) : Char :=
  if style.anyCase then c.toLower else c

/-- The names in a directory that match a part of a pattern. -/
def matchingNames (files : Files) (style : GlobStyle) (place : Place) (part : List Marked) :
    List (List Char) :=
  let names : List (List Char) := match files.at? place with
    | some (.directory entries) => entries.map (·.1)
    | _ => []
  let showsHidden := style.hiddenToo || part.head?.map (·.1) == some '.'
  let steps := atomsOf style.extended (part.map fun (c, q) => (style.fold c, q))
  names.filter fun n =>
    let name := inward n
    (showsHidden || name.head? != some '.') && isMatch steps (name.map style.fold)

/-- Goes on from a path by one part of a pattern. -/
def globStep (files : Files) (style : GlobStyle) (isFirst : Bool) (part : List Marked)
    (f : Found) : List Found :=
  let join (name : List Char) : List Char := if isFirst then name else f.text ++ '/' :: name
  let plain := part.map (·.1)
  if isPattern style.extended part then
    (matchingNames files style f.place part).map fun n => ⟨join (inward n), f.place ++ [n]⟩
  else
    match files.step f.place (outward plain) with
    | .ok place => [⟨join plain, place⟩]
    | .error _ => []

/-- Goes on from paths by the parts of a pattern. -/
def globSteps (files : Files) (style : GlobStyle) :
    Bool → List (List Marked) → List Found → List Found
  | _, [], found => found
  | isFirst, part :: rest, found =>
    globSteps files style false rest (found.flatMap (globStep files style isFirst part))

/-- The paths that a pattern matches, in order. -/
def globPaths (files : Files) (style : GlobStyle) (field : List Marked) : List (List Char) :=
  let parts := patternParts [] field
  let found := match parts with
    | [] :: rest => globSteps files style false rest [⟨[], []⟩]
    | parts => globSteps files style true parts [⟨[], files.here⟩]
  (found.map (·.text)).mergeSort Path.charsLe

/-- What becomes of a field: the paths that it matches, or itself. -/
def Machine.globbed (m : Machine) (field : List Marked) : List (List Char) :=
  let plain := field.map (·.1)
  let extended := m.allows "extglob"
  if m.has "noglob" || !isPattern extended field then [plain]
  else
    let style : GlobStyle := ⟨extended, m.allows "dotglob", m.allows "nocaseglob"⟩
    match globPaths m.files style field with
    | [] => if m.allows "nullglob" then [] else [plain]
    | found => found

end CompilerRemarks.Shell
