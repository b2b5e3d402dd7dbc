/-
  CompilerRemarks.Shell.Brace

  Braces in words: a list of alternatives or a sequence makes one word of
  each member. Only characters that are not quoted count.
-/
import CompilerRemarks.Shell.Word

namespace CompilerRemarks.Shell

/-- A character of a word that is not quoted, or any other part. -/
abbrev Piece := Char ⊕ Part

/-- The pieces of a word. -/
def piecesOf (w : Word) : List Piece :=
  w.flatMap fun p => match p with
    | .text s false => s.map .inl
    | p => [.inr p]

/-- Joins pieces to a word; `acc` are the characters since the last part. -/
def wordOfPieces (acc : List Char) : List Piece → Word
  | [] => if acc.isEmpty then [] else [.text acc.reverse false]
  | .inl c :: rest => wordOfPieces (c :: acc) rest
  | .inr p :: rest =>
    (if acc.isEmpty then [] else [.text acc.reverse false]) ++ p :: wordOfPieces [] rest

/-- The alternatives up to the closing brace and what follows it. `current`
    is the alternative being read, reversed. -/
def alternatives? :
    Nat → List (List Piece) → List Piece → List Piece → Option (List (List Piece) × List Piece)
  | _, _, _, [] => none
  | depth, done, current, p :: rest =>
    if p matches .inl '\x7b' then alternatives? (depth + 1) done (p :: current) rest
    else if p matches .inl '\x7d' then
      match depth with
      | 0 => some (done ++ [current.reverse], rest)
      | depth + 1 => alternatives? depth done (p :: current) rest
    else if p matches .inl ',' then
      if depth == 0 then alternatives? depth (done ++ [current.reverse]) [] rest
      else alternatives? depth done (p :: current) rest
    else alternatives? depth done (p :: current) rest

/-! ## Sequences -/

/-- The integer that a text spells. -/
def wholeNumber? (s : List Char) : Option Int :=
  match s with
  | '-' :: digits => (Text.digits? 10 digits).map fun n => -(Int.ofNat n)
  | '+' :: digits => (Text.digits? 10 digits).map Int.ofNat
  | _ => (Text.digits? 10 s).map Int.ofNat

/-- The numbers from one to another in steps. -/
def numbersBetween (a b : Int) (step : Nat) : List Int :=
  let step := if step == 0 then 1 else step
  let count := (b - a).natAbs / step + 1
  (List.range count).map fun k =>
    if a ≤ b then a + Int.ofNat (k * step) else a - Int.ofNat (k * step)

/-- Whether a number is written with leading zeros. -/
def isZeroPadded (s : List Char) : Bool :=
  let digits := match s with
    | '-' :: rest => rest
    | _ => s
  digits.length > 1 && digits.head? == some '0'

/-- A number with zeros up to a width, its sign included. -/
def paddedNumber (width : Nat) (n : Int) : List Char :=
  let digits := Nat.toDigits 10 n.natAbs
  let sign := if n < 0 then ['-'] else []
  sign ++ List.replicate (width - sign.length - digits.length) '0' ++ digits

/-- The parts of a text between double points. -/
def dotted : List Char → List Char → List (List Char)
  | acc, [] => [acc.reverse]
  | acc, '.' :: '.' :: rest => acc.reverse :: dotted [] rest
  | acc, c :: rest => dotted (c :: acc) rest

/-- The members of a sequence such as `1..5` or `a..e..2`. -/
def sequence? (s : List Char) : Option (List (List Char)) :=
  let make (a b : List Char) (step : Int) : Option (List (List Char)) :=
    match wholeNumber? a, wholeNumber? b with
    | some x, some y =>
      let width := if isZeroPadded a || isZeroPadded b then max a.length b.length else 0
      some ((numbersBetween x y step.natAbs).map (paddedNumber width))
    | _, _ =>
      match a, b with
      | [x], [y] =>
        if x.isAlpha && y.isAlpha then
          some ((numbersBetween x.toNat y.toNat step.natAbs).map fun n => [Char.ofNat n.toNat])
        else none
      | _, _ => none
  match dotted [] s with
  | [a, b] => make a b 1
  | [a, b, step] => (wholeNumber? step).bind (make a b)
  | _ => none

/-- The characters of pieces that are all plain. -/
def plainPieces? (ps : List Piece) : Option (List Char) :=
  ps.mapM fun p => match p with
    | .inl c => some c
    | .inr _ => none

/-! ## Expansion -/

/-- The pieces of each word that braces make. -/
def expandBraces : Nat → List Piece → List (List Piece)
  | 0, ps => [ps]
  | _, [] => [[]]
  | fuel + 1, p :: rest =>
    let literal := (expandBraces fuel rest).map (p :: ·)
    if p matches .inl '\x7b' then
      match alternatives? 0 [] [] rest with
      | some ([only], after) =>
        match (plainPieces? only).bind sequence? with
        | some items =>
          let tails := expandBraces fuel after
          items.flatMap fun item => tails.map (item.map Sum.inl ++ ·)
        | none => literal
      | some (several, after) =>
        let tails := expandBraces fuel after
        several.flatMap fun alternative =>
          (expandBraces fuel alternative).flatMap fun head => tails.map (head ++ ·)
      | none => literal
    else literal

/-- The words that braces make of one. -/
def braceWords (w : Word) : List Word :=
  let ps := piecesOf w
  if ps.any (· matches .inl '\x7b') then
    (expandBraces (ps.length + 1) ps).map (wordOfPieces [])
  else [w]

end CompilerRemarks.Shell
