/-
  CompilerRemarks.Shell.Pattern

  Patterns with `*`, `?`, bracketed sets and groups of alternatives. Each
  character of a pattern carries whether it was quoted; a quoted one stands
  for itself.
-/
import CompilerRemarks.Shell.Script

namespace CompilerRemarks.Shell

/-- A character with its quoting. -/
abbrev Marked := Char × Bool

/-- The characters of a text that are not quoted. -/
def unmarked (s : List Char) : List Marked :=
  s.map (·, false)

/-! ## Sets -/

/-- A member of a set of characters. -/
inductive Member where
  | range (lo hi : Char)
  /-- A class by name. -/
  | named (name : List Char)
  deriving DecidableEq, Repr

/-- Whether a character belongs to a class of the portable character set. -/
def inClass (name : String) (c : Char) : Bool :=
  match name with
  | "alpha" => c.isAlpha
  | "digit" => c.isDigit
  | "alnum" => c.isAlphanum
  | "upper" => c.isUpper
  | "lower" => c.isLower
  | "space" => c == ' ' || (9 ≤ c.toNat && c.toNat ≤ 13)
  | "blank" => c == ' ' || c == '\t'
  | "punct" => 33 ≤ c.toNat && c.toNat ≤ 126 && !c.isAlphanum
  | "print" => 32 ≤ c.toNat && c.toNat ≤ 126
  | "graph" => 33 ≤ c.toNat && c.toNat ≤ 126
  | "cntrl" => c.toNat < 32 || c.toNat == 127
  | "xdigit" => c.isDigit || ('a' ≤ c && c ≤ 'f') || ('A' ≤ c && c ≤ 'F')
  | "word" => c.isAlphanum || c == '_'
  | _ => false

/-- Whether a member takes a character. -/
def Member.takes (c : Char) : Member → Bool
  | .range lo hi => lo ≤ c && c ≤ hi
  | .named name => inClass (String.ofList name) c

/-- The members of a set up to its bracket, which may stand first for itself. -/
def setMembers? : Nat → Bool → List Member → List Marked → Option (List Member × List Marked)
  | 0, _, _, _ => none
  | _, _, _, [] => none
  | fuel + 1, first, acc, (']', false) :: rest =>
    if first then setMembers? fuel false (acc ++ [.range ']' ']']) rest else some (acc, rest)
  | fuel + 1, _, acc, ('[', false) :: (':', false) :: rest =>
    let name := rest.takeWhile (·.1.isAlpha)
    match rest.drop name.length with
    | (':', false) :: (']', false) :: rest =>
      setMembers? fuel false (acc ++ [.named (name.map (·.1))]) rest
    | _ => setMembers? fuel false (acc ++ [.range '[' '[']) ((':', false) :: rest)
  | fuel + 1, _, acc, (a, _) :: ('-', false) :: (b, bq) :: rest =>
    if b == ']' && !bq then some (acc ++ [.range a a, .range '-' '-'], rest)
    else setMembers? fuel false (acc ++ [.range a b]) rest
  | fuel + 1, _, acc, (a, _) :: rest => setMembers? fuel false (acc ++ [.range a a]) rest

/-- Reads a set after its bracket: whether it is negated, and its members. -/
def set? (s : List Marked) : Option (Bool × List Member × List Marked) :=
  let (negated, body) := match s with
    | ('!', false) :: body => (true, body)
    | ('^', false) :: body => (true, body)
    | body => (false, body)
  (setMembers? (body.length + 1) true [] body).map fun (ms, rest) => (negated, ms, rest)

/-! ## Steps -/

/-- One step of a pattern. -/
inductive Atom where
  | literal (c : Char)
  | one
  | many
  | set (negated : Bool) (members : List Member)
  /-- Any of some patterns, as often as the mark before them says. -/
  | group (mark : Char) (alternatives : List (List Atom))
  deriving Repr

/-- The alternatives of a group, divided by bars, and what follows it. -/
def groupParts? :
    Nat → List (List Marked) → List Marked → List Marked → Option (List (List Marked) × List Marked)
  | _, _, _, [] => none
  | depth, done, current, c :: rest =>
    if c == ('(', false) then groupParts? (depth + 1) done (c :: current) rest
    else if c == (')', false) then
      match depth with
      | 0 => some (done ++ [current.reverse], rest)
      | depth + 1 => groupParts? depth done (c :: current) rest
    else if c == ('|', false) && depth == 0 then groupParts? depth (done ++ [current.reverse]) [] rest
    else groupParts? depth done (c :: current) rest

/-- Whether a character may stand before a group. -/
def isGroupMark (c : Char) : Bool :=
  c == '@' || c == '*' || c == '+' || c == '?' || c == '!'

/-- The steps of a pattern; groups count only where they are `extended`. -/
def atoms (extended : Bool) : Nat → List Marked → List Atom
  | 0, _ => []
  | _, [] => []
  | fuel + 1, (c, quoted) :: rest =>
    let opens : Bool := extended && !quoted && isGroupMark c && rest.head? == some ('(', false)
    match (if opens then groupParts? 0 [] [] (rest.drop 1) else none) with
    | some (parts, rest) => .group c (parts.map (atoms extended fuel)) :: atoms extended fuel rest
    | none =>
      if quoted then .literal c :: atoms extended fuel rest
      else if c == '*' then .many :: atoms extended fuel rest
      else if c == '?' then .one :: atoms extended fuel rest
      else if c == '[' then
        match set? rest with
        | some (negated, members, rest) => .set negated members :: atoms extended fuel rest
        | none => .literal c :: atoms extended fuel rest
      else .literal c :: atoms extended fuel rest

/-- The steps of a pattern. -/
def atomsOf (extended : Bool) (p : List Marked) : List Atom :=
  atoms extended (p.length + 1) p

/-! ## Matching -/

/-- Whether a step takes exactly this character. -/
def Atom.takes (c : Char) : Atom → Bool
  | .literal d => c == d
  | .one => true
  | .set negated members => (members.any (·.takes c)) != negated
  | _ => false

/-- The ends of a text, from the whole of it down to nothing. -/
def tails : List Char → List (List Char)
  | [] => [[]]
  | c :: rest => (c :: rest) :: tails rest

/-- Keeps one of the texts of each length. -/
def distinct (texts : List (List Char)) : List (List Char) :=
  texts.foldl (fun kept s => if kept.any (·.length == s.length) then kept else kept ++ [s]) []

/-- What may be left of a text after the steps of a pattern. -/
def leftovers : Nat → List Atom → List Char → List (List Char)
  | 0, _, _ => []
  | _, [], s => [s]
  | fuel + 1, a :: p, s =>
    match a with
    | .many => distinct ((tails s).flatMap (leftovers fuel p))
    | .group mark alternatives =>
      let once := fun (s : List Char) => distinct (alternatives.flatMap (leftovers fuel · s))
      let more := fun (s : List Char) =>
        ((once s).filter (·.length < s.length)).flatMap (leftovers fuel [.group '*' alternatives])
      let after := match mark with
        | '@' => once s
        | '?' => s :: once s
        | '+' => once s ++ more s
        | '*' => s :: more s
        | _ =>
          let taken := (once s).map (·.length)
          (tails s).filter fun t => !taken.contains t.length
      distinct ((distinct after).flatMap (leftovers fuel p))
    | a =>
      match s with
      | [] => []
      | c :: rest => if a.takes c then leftovers fuel p rest else []

/-- Whether a pattern matches a whole text. -/
def isMatch (p : List Atom) (s : List Char) : Bool :=
  (leftovers (p.length + 2 * s.length + 8) p s).any (·.isEmpty)

/-- A text without the shortest or longest leading match of a pattern. -/
def dropMatch (longest : Bool) (p : List Atom) (s : List Char) : List Char :=
  let sizes := List.range (s.length + 1)
  let sizes := if longest then sizes.reverse else sizes
  match sizes.find? fun n => isMatch p (s.take n) with
  | some n => s.drop n
  | none => s

/-- A text without the shortest or longest trailing match of a pattern. -/
def dropMatchEnd (longest : Bool) (p : List Atom) (s : List Char) : List Char :=
  let sizes := List.range (s.length + 1)
  let sizes := if longest then sizes else sizes.reverse
  match sizes.find? fun n => isMatch p (s.drop n) with
  | some n => s.take n
  | none => s

/-- The size of the longest match at the start of a text. -/
def matchSize? (p : List Atom) (s : List Char) : Option Nat :=
  (List.range (s.length + 1)).reverse.find? fun n => isMatch p (s.take n)

/-- Replaces the first match in a text, or every one, by what `make` says. -/
def replaceMatches (every : Bool) (p : List Atom) (make : List Char → List Char) :
    Nat → List Char → List Char
  | 0, s => s
  | _, [] => []
  | fuel + 1, c :: rest =>
    match matchSize? p (c :: rest) with
    | some (n + 1) =>
      let after := (c :: rest).drop (n + 1)
      make ((c :: rest).take (n + 1)) ++
        (if every then replaceMatches every p make fuel after else after)
    | _ => c :: replaceMatches every p make fuel rest

/-- Replaces matches of a pattern in a text. -/
def replaceIn (extent : Extent) (p : List Atom) (make : List Char → List Char) (s : List Char) :
    List Char :=
  let inside (every : Bool) : List Char :=
    if s.isEmpty && isMatch p [] then make [] else replaceMatches every p make (s.length + 1) s
  match extent with
  | .first => inside false
  | .every => inside true
  | .atStart =>
    match matchSize? p s with
    | some n => make (s.take n) ++ s.drop n
    | none => s
  | .atEnd =>
    match (List.range (s.length + 1)).find? fun n => isMatch p (s.drop n) with
    | some n => s.take n ++ make (s.drop n)
    | none => s

/-- Whether a pattern has any step but literal characters. -/
def isPattern (extended : Bool) (p : List Marked) : Bool :=
  (atomsOf extended p).any fun a => match a with
    | .literal _ => false
    | _ => true

end CompilerRemarks.Shell
