/-
  CompilerRemarks.Path.Basic

  Slash-separated paths. A path keeps the text it was written with; two
  paths are the same when their components are, so `a//b/./c/` and `a/b/c`
  are the same path with different texts.
-/

namespace CompilerRemarks

/-- A path as it is written. -/
structure Path where
  text : String
  deriving DecidableEq, Repr

namespace Path

/-- One step of a path. -/
inductive Component where
  /-- The leading slash. -/
  | root
  /-- A leading `.`; elsewhere a `.` is no component. -/
  | current
  /-- A `..` step. -/
  | parent
  /-- Any other name. -/
  | name (s : List Char)
  deriving DecidableEq, Repr

/-! ## Components -/

/-- The component of the piece of text between two slashes, if it is one.
    Only the first piece of a relative path may be a `.` component. -/
def component? (leading : Bool) (piece : List Char) : Option Component :=
  if piece.isEmpty then none
  else if piece == ['.'] then (if leading then some .current else none)
  else if piece == ['.', '.'] then some .parent
  else some (.name piece)

/-- The components of a text with the offset at which each ends. `piece` is
    the piece being read, reversed, and `offset` the characters before `s`. -/
def locate (leading : Bool) (piece : List Char) (offset : Nat) :
    List Char → List (Component × Nat)
  | [] => ((component? leading piece.reverse).map (·, offset)).toList
  | c :: rest =>
    if c == '/' then
      ((component? leading piece.reverse).map (·, offset)).toList ++
        locate false [] (offset + 1) rest
    else locate leading (c :: piece) (offset + 1) rest

/-- The components of a text with the offset at which each ends. -/
def located : List Char → List (Component × Nat)
  | '/' :: rest => (.root, 1) :: locate false [] 1 rest
  | s => locate true [] 0 s

/-- The steps of a path. -/
def components (p : Path) : List Component :=
  (located p.text.toList).map (·.1)

/-- Whether two paths have the same components. -/
def same (p q : Path) : Bool :=
  p.components == q.components

theorem same_iff (p q : Path) : p.same q = true ↔ p.components = q.components :=
  beq_iff_eq

theorem same_refl (p : Path) : p.same p = true :=
  (same_iff p p).mpr rfl

/-- Paths that are the same are the same as the same paths. -/
theorem same_congr {p q : Path} (h : p.same q = true) (r : Path) : p.same r = q.same r := by
  rw [same, same, (same_iff p q).mp h]

theorem same_congr_right {p q : Path} (h : p.same q = true) (r : Path) : r.same p = r.same q := by
  rw [same, same, (same_iff p q).mp h]

/-- Whether the path starts at the root. -/
def isAbsolute (p : Path) : Bool :=
  p.text.toList.head? == some '/'

/-- The last component, if it is a name. -/
def fileName? (p : Path) : Option (List Char) :=
  match p.components.getLast? with
  | some (.name s) => some s
  | _ => none

/-- Whether `base` is a leading part of the path, component by component. -/
def startsWith (p base : Path) : Bool :=
  base.components.isPrefixOf p.components

/-! ## Going up -/

/-- The texts of the proper ancestors, nearest first: the text up to the end
    of each earlier component, and the empty path above a relative one. -/
def ancestorTexts (s : List Char) : List (List Char) :=
  let ends := (located s).map (·.2)
  let above := ends.dropLast.reverse.map s.take
  if s.head? == some '/' || ends.isEmpty then above else above ++ [[]]

/-- The proper ancestors, nearest first. -/
def ancestors (p : Path) : List Path :=
  (ancestorTexts p.text.toList).map fun s => ⟨String.ofList s⟩

/-- The path without its last component. -/
def parent? (p : Path) : Option Path :=
  p.ancestors.head?

/-! ## Joining -/

/-- `q` taken from `p`: an absolute `q` stands for itself. -/
def join (p q : Path) : Path :=
  if q.isAbsolute then q
  else
    let base := p.text.toList
    let separator := match base.getLast? with
      | none => []
      | some '/' => []
      | some _ => ['/']
    ⟨String.ofList (base ++ separator ++ q.text.toList)⟩

/-- The text of one component. -/
def Component.chars : Component → List Char
  | .root => ['/']
  | .current => ['.']
  | .parent => ['.', '.']
  | .name s => s

/-- The text of a list of components: a slash between two of them, but none
    after the root. -/
def textOf : List Component → List Char
  | [] => []
  | [c] => c.chars
  | .root :: rest => '/' :: textOf rest
  | c :: rest => c.chars ++ '/' :: textOf rest

/-- The path written with these components. -/
def ofComponents (cs : List Component) : Path :=
  ⟨String.ofList (textOf cs)⟩

/-! ## Order -/

/-- The place of a component's kind in the order of paths. -/
def Component.rank : Component → Nat
  | .root => 0
  | .current => 1
  | .parent => 2
  | .name _ => 3

/-- Lexicographic order of names by code point. -/
def charsLe : List Char → List Char → Bool
  | [], _ => true
  | _ :: _, [] => false
  | a :: s, b :: t => if a == b then charsLe s t else a.toNat < b.toNat

/-- Order of components: by kind, then by name. -/
def Component.le : Component → Component → Bool
  | .name s, .name t => charsLe s t
  | a, b => a.rank ≤ b.rank

/-- Lexicographic order of component lists. -/
def componentsLe : List Component → List Component → Bool
  | [], _ => true
  | _ :: _, [] => false
  | a :: s, b :: t => if a == b then componentsLe s t else a.le b

/-- Order of paths by their components. -/
def le (p q : Path) : Bool :=
  componentsLe p.components q.components

end Path

end CompilerRemarks
