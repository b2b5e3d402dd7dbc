/-
  CompilerRemarks.Yaml.Token.Scalar

  Reading the scalars of a stream: quoted in either style, plain, and the two
  block styles. Line breaks inside the first three are folded.
-/
import CompilerRemarks.Yaml.Token.Basic

namespace CompilerRemarks.Yaml

/-! ## Folding -/

/-- The blanks and breaks between two words of a scalar. -/
structure Fold where
  /-- Blanks, as long as no break was met. -/
  blanks : List Char
  /-- Whether a break was met. -/
  broken : Bool
  /-- The first break. -/
  first : List Char
  /-- The breaks after it. -/
  more : List Char

/-- No blanks and no breaks. -/
def Fold.empty : Fold := ⟨[], false, [], []⟩

/-- The text that stands for the blanks and breaks: one break is a blank, and
    of several the first is dropped. -/
def Fold.text (f : Fold) : List Char :=
  if f.broken then
    if f.first.head? == some '\n' then
      if f.more.isEmpty then [' '] else f.more
    else f.first ++ f.more
  else f.blanks

/-- Reads blanks and breaks. After a break, a tab left of column `indent` is
    an error. -/
def Fold.read? (indent : Nat) : Nat → Fold → Cursor → Option (Fold × Cursor)
  | 0, f, cur => some (f, cur)
  | fuel + 1, f, cur =>
    match cur.rest with
    | [] => some (f, cur)
    | c :: _ =>
      if isGap c then
        if f.broken then
          if c == '\t' && cur.column < indent then none
          else Fold.read? indent fuel f (cur.advance 1)
        else Fold.read? indent fuel { f with blanks := f.blanks ++ [c] } (cur.advance 1)
      else if isBreak c then
        let (text, next) := cur.readBreak
        if f.broken then Fold.read? indent fuel { f with more := f.more ++ text } next
        else Fold.read? indent fuel ⟨[], true, text, f.more⟩ next
      else some (f, cur)

/-! ## Quoted scalars -/

/-- The character of a one-letter escape. -/
def escapeChar? (c : Char) : Option Char :=
  if c == '0' then some '\x00'
  else if c == 'a' then some '\x07'
  else if c == 'b' then some '\x08'
  else if c == 't' || c == '\t' then some '\t'
  else if c == 'n' then some '\n'
  else if c == 'v' then some '\x0b'
  else if c == 'f' then some '\x0c'
  else if c == 'r' then some '\r'
  else if c == 'e' then some '\x1b'
  else if c == ' ' then some ' '
  else if c == '"' then some '"'
  else if c == '/' then some '/'
  else if c == '\\' then some '\\'
  else if c == 'N' then some '\x85'
  else if c == '_' then some '\xa0'
  else if c == 'L' then some '\u2028'
  else if c == 'P' then some '\u2029'
  else none

/-- How many hexadecimal digits follow an escape letter. -/
def escapeWidth? (c : Char) : Option Nat :=
  if c == 'x' then some 2
  else if c == 'u' then some 4
  else if c == 'U' then some 8
  else none

/-- A code point that is a character. -/
def scalarValue? (n : Nat) : Option Char :=
  if (0xD800 ≤ n && n ≤ 0xDFFF) || n > 0x10FFFF then none else some (Char.ofNat n)

/-- Reads the escape whose letter is `c`, after the backslash at the cursor. -/
def escape? (cur : Cursor) (c : Char) : Option (Char × Cursor) :=
  match escapeChar? c with
  | some x => some (x, cur.advance 2)
  | none =>
    match escapeWidth? c with
    | none => none
    | some width =>
      let digits := (cur.rest.drop 2).take width
      if digits.length < width then none
      else ((Text.digits? 16 digits).bind scalarValue?).map (·, cur.advance (2 + width))

/-- How a word of a quoted scalar ended. -/
inductive WordEnd where
  | plain
  /-- By a backslash at the end of its line. -/
  | escapedBreak

/-- Reads a word of a quoted scalar; `acc` is what was read, reversed. -/
def quotedWord? (single : Bool) :
    Nat → List Char → Cursor → Option (List Char × WordEnd × Cursor)
  | 0, _, _ => none
  | fuel + 1, acc, cur =>
    if atGap cur.rest then some (acc, .plain, cur)
    else
      match cur.rest with
      | [] => some (acc, .plain, cur)
      | c :: tail =>
        if single then
          match c, tail with
          | '\'', '\'' :: _ => quotedWord? single fuel ('\'' :: acc) (cur.advance 2)
          | '\'', _ => some (acc, .plain, cur)
          | _, _ => quotedWord? single fuel (c :: acc) (cur.advance 1)
        else if c == '"' then some (acc, .plain, cur)
        else if c == '\\' then
          match tail with
          | [] => none
          | e :: _ =>
            if isBreak e then some (acc, .escapedBreak, (cur.advance 1).readBreak.2)
            else
              match escape? cur e with
              | none => none
              | some (x, next) => quotedWord? single fuel (x :: acc) next
        else quotedWord? single fuel (c :: acc) (cur.advance 1)

/-- Reads the body of a quoted scalar and its closing quote. -/
def quotedBody? (single : Bool) : Nat → List Char → Cursor → Option (List Char × Cursor)
  | 0, _, _ => none
  | fuel + 1, acc, cur =>
    if (cur.column == 0 && atDocumentMark cur.rest) || cur.rest.isEmpty then none
    else
      match quotedWord? single (cur.rest.length + 1) acc cur with
      | none => none
      | some (acc, ending, cur) =>
        if cur.isAt (if single then '\'' else '"') then some (acc.reverse, cur.advance 1)
        else
          let start : Fold := match ending with
            | .plain => .empty
            | .escapedBreak => ⟨[], true, [], []⟩
          match Fold.read? 0 (cur.rest.length + 1) start cur with
          | none => none
          | some (fold, cur) => quotedBody? single fuel (fold.text.reverse ++ acc) cur

/-- Reads a quoted scalar whose opening quote is at the cursor. -/
def quoted? (single : Bool) (cur : Cursor) : Option (List Char × Cursor) :=
  quotedBody? single (cur.rest.length + 1) [] (cur.advance 1)

/-! ## Plain scalars -/

/-- Reads a word of a plain scalar; `acc` is what was read, reversed. In a
    flow collection a colon right before a flow mark is an error. -/
def plainWord? (flow : Bool) : Nat → List Char → Cursor → Option (List Char × Cursor)
  | 0, acc, cur => some (acc, cur)
  | fuel + 1, acc, cur =>
    match cur.rest with
    | [] => some (acc, cur)
    | c :: tail =>
      let beforeMark := match tail with
        | d :: _ => isFlowMark d || d == '?'
        | [] => false
      if isGap c || isBreak c then some (acc, cur)
      else if flow && c == ':' && beforeMark then none
      else if (c == ':' && atGap tail) || (flow && isFlowMark c) then some (acc, cur)
      else plainWord? flow fuel (c :: acc) (cur.advance 1)

/-- Reads the words of a plain scalar; `fold` stands before the next one. The
    result tells whether a break follows the last word. -/
def plainBody? (flow : Bool) (indent : Nat) :
    Nat → List Char → Fold → Cursor → Option (List Char × Bool × Cursor)
  | 0, acc, fold, cur => some (acc.reverse, fold.broken, cur)
  | fuel + 1, acc, fold, cur =>
    if (cur.column == 0 && atDocumentMark cur.rest) || cur.isAt '#' then
      some (acc.reverse, fold.broken, cur)
    else
      match plainWord? flow (cur.rest.length + 1) [] cur with
      | none => none
      | some ([], cur) => some (acc.reverse, fold.broken, cur)
      | some (word, cur) =>
        let acc := word ++ fold.text.reverse ++ acc
        match cur.rest with
        | [] => some (acc.reverse, false, cur)
        | c :: _ =>
          if isGap c || isBreak c then
            match Fold.read? indent (cur.rest.length + 1) .empty cur with
            | none => none
            | some (fold, cur) =>
              if !flow && cur.column < indent then some (acc.reverse, fold.broken, cur)
              else plainBody? flow indent fuel acc fold cur
          else some (acc.reverse, false, cur)

/-- Reads a plain scalar; outside flow collections its lines must stand at
    column `indent` or further right. -/
def plainScalar? (flow : Bool) (indent : Nat) (cur : Cursor) :
    Option (List Char × Bool × Cursor) :=
  plainBody? flow indent (cur.rest.length + 1) [] .empty cur

/-! ## Block scalars -/

/-- What becomes of the breaks at the end of a block scalar. -/
inductive Chomp where
  | strip
  | clip
  | keep
  deriving DecidableEq

/-- Reads the chomping indicator. -/
def chomp? : List Char → Option Chomp
  | '+' :: _ => some .keep
  | '-' :: _ => some .strip
  | _ => none

/-- Reads the digit of an indentation indicator, if there is one. -/
def increment (s : List Char) : Option Nat :=
  match s with
  | c :: _ => if '0' ≤ c && c ≤ '9' then some (c.toNat - 48) else none
  | [] => none

/-- Reads the indicators after `|` or `>`, in either order: chomping and
    indentation, `0` for none; an indentation of zero is an error. -/
def blockHeader? (cur : Cursor) : Option (Chomp × Nat × Cursor) :=
  match chomp? cur.rest with
  | some chomp =>
    let cur := cur.advance 1
    match increment cur.rest with
    | some 0 => none
    | some n => some (chomp, n, cur.advance 1)
    | none => some (chomp, 0, cur)
  | none =>
    match increment cur.rest with
    | some 0 => none
    | some n =>
      let cur := cur.advance 1
      match chomp? cur.rest with
      | some chomp => some (chomp, n, cur.advance 1)
      | none => some (.clip, n, cur)
    | none => some (.clip, 0, cur)

/-- Eats indentation and empty lines. While the indentation is not known
    (`0`), the widest one met is kept in `widest`. A tab in the indentation is
    an error. -/
def blockBreaks? (indent : Nat) :
    Nat → List Char → Nat → Cursor → Option (List Char × Nat × Cursor)
  | 0, breaks, widest, cur => some (breaks, widest, cur)
  | fuel + 1, breaks, widest, cur =>
    let spaces := (cur.rest.takeWhile (· == ' ')).length
    let cur := cur.advance (if indent == 0 then spaces else min spaces (indent - cur.column))
    let widest := max widest cur.column
    if (indent == 0 || cur.column < indent) && cur.isAt '\t' then none
    else
      match cur.rest with
      | [] => some (breaks, widest, cur)
      | c :: _ =>
        if isBreak c then
          let (text, next) := cur.readBreak
          blockBreaks? indent fuel (breaks ++ text) widest next
        else some (breaks, widest, cur)

/-- Reads the lines of a block scalar. `first` is the break of the line
    before, `more` the breaks of the empty lines after it, and `spaced` tells
    whether that line started with a blank. -/
def blockLines? (literal : Bool) (indent : Nat) :
    Nat → List Char → List Char → List Char → Bool → Cursor →
      Option (List Char × List Char × List Char × Cursor)
  | 0, acc, first, more, _, cur => some (acc, first, more, cur)
  | fuel + 1, acc, first, more, spaced, cur =>
    if cur.column != indent || cur.rest.isEmpty then some (acc, first, more, cur)
    else
      let blank := match cur.rest with
        | c :: _ => isGap c
        | [] => false
      let joined :=
        if !literal && first.head? == some '\n' && !spaced && !blank then
          (if more.isEmpty then [' '] else []) ++ more
        else first ++ more
      let (line, cur) := cur.take (!isBreak ·)
      let (first, cur) := cur.readBreak
      match blockBreaks? indent (cur.rest.length + 1) [] 0 cur with
      | none => none
      | some (more, _, cur) =>
        blockLines? literal indent fuel (acc ++ joined ++ line) first more blank cur

/-- Reads a block scalar whose indicator is at the cursor, inside a block of
    indentation `parent` (`-1` outside every block). -/
def blockScalar? (literal : Bool) (parent : Int) (cur : Cursor) : Option (List Char × Cursor) :=
  match blockHeader? (cur.advance 1) with
  | none => none
  | some (chomp, extra, cur) =>
    match cur.finishLine? with
    | none => none
    | some cur =>
      let given := if extra == 0 then 0
        else if parent ≥ 0 then parent.toNat + extra else extra
      match blockBreaks? given (cur.rest.length + 1) [] 0 cur with
      | none => none
      | some (more, widest, cur) =>
        let indent := if given != 0 then given
          else max (max widest (parent + 1).toNat) 1
        match blockLines? literal indent (cur.rest.length + 1) [] [] more false cur with
        | none => none
        | some (text, first, more, cur) =>
          let tail := match chomp with
            | .strip => []
            | .clip => first
            | .keep => first ++ more
          some (text ++ tail, cur)

end CompilerRemarks.Yaml
