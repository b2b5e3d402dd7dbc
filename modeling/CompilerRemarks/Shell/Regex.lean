/-
  CompilerRemarks.Shell.Regex

  Extended regular expressions with groups. Of the matches that start first
  the longest counts.
-/
import CompilerRemarks.Shell.Pattern
import CompilerRemarks.Text.Numeral

namespace CompilerRemarks.Shell

/-- A regular expression. -/
inductive Regex where
  | empty
  | any
  | literal (c : Char)
  | set (negated : Bool) (members : List Member)
  | start
  | finish
  | group (number : Nat) (r : Regex)
  | sequence (a b : Regex)
  | either (a b : Regex)
  | repeated (least : Nat) (most : Option Nat) (r : Regex)
  deriving Repr

/-! ## Reading -/

/-- Reads what says how often the expression before it is repeated. -/
def repetition? (s : List Marked) : Option (Nat × Option Nat × List Marked) :=
  match s with
  | ('*', false) :: rest => some (0, none, rest)
  | ('+', false) :: rest => some (1, none, rest)
  | ('?', false) :: rest => some (0, some 1, rest)
  | ('\x7b', false) :: rest =>
    let body := (rest.takeWhile (· != ('\x7d', false))).map (·.1)
    let after := rest.drop (body.length + 1)
    let (least, tail) := body.span Char.isDigit
    match Text.digits? 10 least, tail with
    | some n, [] => some (n, some n, after)
    | some n, [','] => some (n, none, after)
    | some n, ',' :: most => (Text.digits? 10 most).map fun m => (n, some m, after)
    | _, _ => none
  | _ => none

/-- Applies the repetitions after an expression. -/
def repeatedBy : Nat → Regex → List Marked → Regex × List Marked
  | 0, r, s => (r, s)
  | fuel + 1, r, s =>
    match repetition? s with
    | some (least, most, rest) => repeatedBy fuel (.repeated least most r) rest
    | none => (r, s)

mutual

/-- Reads alternatives up to a closing bracket or the end; `n` is the number
    of the next group. -/
def alternation? : Nat → Nat → List Marked → Option (Regex × Nat × List Marked)
  | 0, _, _ => none
  | fuel + 1, n, s =>
    match branch? fuel n .empty s with
    | none => none
    | some (a, n, ('|', false) :: rest) =>
      (alternation? fuel n rest).map fun (b, n, rest) => (.either a b, n, rest)
    | some r => some r

/-- Reads the pieces of one alternative. -/
def branch? : Nat → Nat → Regex → List Marked → Option (Regex × Nat × List Marked)
  | 0, _, _, _ => none
  | fuel + 1, n, before, s =>
    let go (r : Regex) (n : Nat) (rest : List Marked) : Option (Regex × Nat × List Marked) :=
      let (r, rest) := repeatedBy (rest.length + 1) r rest
      branch? fuel n (.sequence before r) rest
    match s with
    | [] => some (before, n, [])
    | ('|', false) :: _ => some (before, n, s)
    | (')', false) :: _ => some (before, n, s)
    | ('(', false) :: rest =>
      match alternation? fuel (n + 1) rest with
      | some (r, m, (')', false) :: rest) => go (.group n r) m rest
      | _ => none
    | ('.', false) :: rest => go .any n rest
    | ('^', false) :: rest => go .start n rest
    | ('$', false) :: rest => go .finish n rest
    | ('[', false) :: rest =>
      match set? rest with
      | some (negated, members, rest) => go (.set negated members) n rest
      | none => none
    | ('\\', false) :: (c, _) :: rest => go (.literal c) n rest
    | (c, _) :: rest => go (.literal c) n rest

end

/-- The regular expression of a text. -/
def Regex.ofMarked? (s : List Marked) : Option Regex :=
  match alternation? (2 * s.length + 4) 1 s with
  | some (r, _, []) => some r
  | _ => none

/-! ## Matching -/

/-- A place in a text, and what the groups matched so far. -/
structure Progress where
  before : Nat
  rest : List Char
  groups : List (Nat × List Char)

/-- The ways to match an expression from a place, the longer ones first. -/
def Regex.ways : Nat → Regex → Progress → List Progress
  | 0, _, _ => []
  | fuel + 1, r, p =>
    let take (ok : Char → Bool) : List Progress :=
      match p.rest with
      | c :: rest => if ok c then [{ p with before := p.before + 1, rest := rest }] else []
      | [] => []
    match r with
    | .empty => [p]
    | .any => take fun _ => true
    | .literal c => take (· == c)
    | .set negated members => take fun c => (members.any (·.takes c)) != negated
    | .start => if p.before == 0 then [p] else []
    | .finish => if p.rest.isEmpty then [p] else []
    | .group n r =>
      (ways fuel r p).map fun q =>
        { q with groups := (n, p.rest.take (p.rest.length - q.rest.length)) :: q.groups }
    | .sequence a b => (ways fuel a p).flatMap (ways fuel b)
    | .either a b => ways fuel a p ++ ways fuel b p
    | .repeated least most r =>
      let again :=
        if most == some 0 then []
        else
          ((ways fuel r p).filter fun q => q.before > p.before || least > 0).flatMap
            (ways fuel (.repeated (least - 1) (most.map (· - 1)) r))
      if least == 0 then again ++ [p] else again

/-- The first match in a text that starts at `before` or later: what it
    matched, and what its groups did. -/
def Regex.search (r : Regex) (size : Nat) : Nat → List Char → Option (List Char × List (Nat × List Char))
  | before, s =>
    let found := r.ways (4 * size + 64) ⟨before, s, []⟩
    let longest := found.foldl (fun (best : Option Progress) q =>
      match best with
      | some b => if b.before < q.before then some q else best
      | none => some q) none
    match longest, s with
    | some q, _ => some (s.take (s.length - q.rest.length), q.groups)
    | none, [] => none
    | none, _ :: rest => search r size (before + 1) rest

/-- What the parts of a regular expression match in a text, the whole first;
    `none` if it does not match. -/
def Regex.matched? (r : Regex) (count : Nat) (s : List Char) : Option (List (List Char)) :=
  (r.search s.length 0 s).map fun (whole, groups) =>
    whole :: (List.range count).map fun k => (groups.lookup (k + 1)).getD []

/-- The number of groups of a regular expression. -/
def Regex.groupCount : Regex → Nat
  | .group _ r => r.groupCount + 1
  | .sequence a b => a.groupCount + b.groupCount
  | .either a b => a.groupCount + b.groupCount
  | .repeated _ _ r => r.groupCount
  | _ => 0

end CompilerRemarks.Shell
