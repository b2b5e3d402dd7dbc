/-
  CompilerRemarks.Shell.Expr

  Integer expressions and how a shell reads them. The text that a complaint
  quotes is that from the last token on that was looked at.
-/
import CompilerRemarks.Shell.Word

namespace CompilerRemarks.Shell

/-! ## Expressions -/

/-- An operation on two integers. -/
inductive Operation where
  | add
  | sub
  | mul
  | div
  | mod
  | power
  | shiftLeft
  | shiftRight
  | less
  | lessEq
  | greater
  | greaterEq
  | equal
  | notEqual
  | bitAnd
  | bitXor
  | bitOr
  deriving DecidableEq, Repr

/-- A variable or an element of an array. -/
structure Cell where
  name : List Char
  subscript : Option (List Char)
  deriving DecidableEq, Repr

/-- An integer expression. Where a value can make no sense, the text that a
    complaint quotes is kept. -/
inductive Expr where
  | number (n : Int)
  | cell (c : Cell)
  | negative (e : Expr)
  | complement (e : Expr)
  | isZero (e : Expr)
  | grouped (e : Expr)
  | binary (op : Operation) (a b : Expr) (token : List Char)
  | both (a b : Expr)
  | either (a b : Expr)
  | choice (condition yes no : Expr)
  | assign (c : Cell) (op : Option Operation) (e : Expr) (token : List Char)
  /-- Adds to a variable; the value is the one before or the one after. -/
  | step (c : Cell) (amount : Int) (before : Bool)
  | comma (a b : Expr)
  deriving Repr

/-- What is wrong with an expression. -/
inductive Mistake where
  | operand
  | trailing
  | operator
  | notVariable
  | bracket
  | colon
  | branch
  | base
  | digit
  | subscript
  | division
  | exponent
  | depth
  /-- The value of a variable is no number. -/
  | value
  deriving DecidableEq, Repr

/-- Why an expression has no value. -/
structure ExprFault where
  mistake : Mistake
  token : List Char
  /-- The expression, as far as it was read. -/
  text : List Char
  deriving DecidableEq, Repr

/-- The wording of a mistake. -/
def Mistake.text : Mistake → String
  | .operand => "syntax error: operand expected"
  | .trailing => "syntax error in expression"
  | .operator => "syntax error: invalid arithmetic operator"
  | .notVariable => "attempted assignment to non-variable"
  | .bracket => "missing `)'"
  | .colon => "`:' expected for conditional expression"
  | .branch => "expression expected"
  | .base => "invalid arithmetic base"
  | .digit => "value too great for base"
  | .subscript => "bad array subscript"
  | .division => "division by 0"
  | .exponent => "exponent less than 0"
  | .depth => "expression recursion level exceeded"
  | .value => "syntax error: operand expected"

/-- The wording of a mistake in the plain shell. -/
def Mistake.plainText : Mistake → String
  | .operand => "expecting primary"
  | .branch => "expecting primary"
  | .bracket => "expecting ')'"
  | .colon => "expecting ':'"
  | .division => "division by zero"
  | _ => "expecting EOF"

/-- The complaint about an expression. -/
def ExprFault.message (d : Dialect) (f : ExprFault) : String :=
  let blank := fun (c : Char) => c == ' ' || c == '\t'
  match d, f.mistake with
  | .bash, m =>
    String.ofList (f.text.dropWhile blank) ++ ": " ++ m.text ++ " (error token is \"" ++
      String.ofList f.token ++ "\")"
  | .plain, .value => "Illegal number: " ++ String.ofList f.text
  | .plain, m => "arithmetic expression: " ++ m.plainText ++ ": \"" ++ String.ofList f.text ++ "\""

/-! ## Cursors -/

/-- A place in an expression. -/
structure Cursor where
  /-- The text from the token before on. -/
  before : List Char
  rest : List Char

namespace Cursor

/-- Blanks in an expression. -/
def isBlank (c : Char) : Bool :=
  c == ' ' || c == '\t' || c == '\n'

/-- The place after this many characters. -/
def past (c : Cursor) (n : Nat) : Cursor :=
  ⟨c.rest, (c.rest.drop n).dropWhile isBlank⟩

/-- The text that a complaint quotes. -/
def token (c : Cursor) : List Char :=
  if c.rest.isEmpty then c.before else c.rest

/-- Whether the text goes on so. -/
def starts (c : Cursor) (s : String) : Bool :=
  s.toList.isPrefixOf c.rest

/-- Whether a step by one stands before a name here. -/
def startsStep (c : Cursor) : Bool :=
  (c.starts "++" || c.starts "--") && (((c.past 2).rest.head?.map isNameStart).getD false)

end Cursor

/-! ## Reading -/

/-- An expression and where it ends. -/
abbrev ExprResult := Except ExprFault (Expr × Cursor)

/-- The binary operators of each rank, the loosest first. -/
def ranks : List (List (String × Operation)) :=
  [[("|", .bitOr)], [("^", .bitXor)], [("&", .bitAnd)], [("==", .equal), ("!=", .notEqual)],
    [("<=", .lessEq), (">=", .greaterEq), ("<", .less), (">", .greater)],
    [("<<", .shiftLeft), (">>", .shiftRight)], [("+", .add), ("-", .sub)],
    [("*", .mul), ("/", .div), ("%", .mod)]]

/-- The operators that assign. -/
def assigners : List (String × Option Operation) :=
  [("<<=", some .shiftLeft), (">>=", some .shiftRight), ("*=", some .mul), ("/=", some .div),
    ("%=", some .mod), ("+=", some .add), ("-=", some .sub), ("&=", some .bitAnd),
    ("^=", some .bitXor), ("|=", some .bitOr), ("=", none)]

/-- Longer operators that hide shorter ones at their start. -/
def longOperators : List String :=
  ["<<=", ">>=", "<<", ">>", "<=", ">=", "==", "!=", "&&", "||", "**", "*=", "/=", "%=", "+=", "-=",
    "&=", "^=", "|="]

/-- The operator at a place. -/
def operatorAt (d : Dialect) (c : Cursor) : String :=
  match longOperators.find? fun op => c.starts op && !(d == .plain && op == "**") with
  | some op => op
  | none => String.ofList (c.rest.take 1)

/-- The assignment operator at a place. -/
def assigner? (d : Dialect) (c : Cursor) : Option (String × Option Operation) :=
  assigners.find? (·.1 == operatorAt d c)

/-- The digits of large bases: digits, small letters, capitals and two signs. -/
def wideDigit? (base : Nat) (c : Char) : Option Nat :=
  let n := c.toNat
  if c.isDigit then some (n - 48)
  else if c.isLower then some (n - 97 + 10)
  else if c.isUpper then some (if base ≤ 36 then n - 65 + 10 else n - 65 + 36)
  else if c == '@' then some 62
  else if c == '_' then some 63
  else none

/-- The number of some digits. -/
def wideNumber? (base : Nat) (s : List Char) : Option Nat :=
  s.foldlM (fun acc c => match wideDigit? base c with
    | some k => if k < base then some (acc * base + k) else none
    | none => none) 0

/-- The least integer of a machine word. -/
def leastInteger : Int := -9223372036854775808

/-- The greatest integer of a machine word. -/
def greatestInteger : Int := 9223372036854775807

/-- An integer as it fits into a machine word. -/
def wrapped (n : Int) : Int :=
  n.bmod 18446744073709551616

/-- The value of a number, with its base if it has one. -/
def numberOf (s : List Char) : Except Mistake Int :=
  let make (base : Nat) (digits : List Char) : Except Mistake Int :=
    match wideNumber? base digits with
    | some n => .ok (wrapped (Int.ofNat n))
    | none => .error .digit
  let (head, tail) := s.span (· ≠ '#')
  match tail with
  | _ :: digits =>
    match Text.digits? 10 head with
    | some base =>
      if base < 2 || base > 64 || digits.isEmpty then .error .base else make base digits
    | none => .error .digit
  | [] =>
    match s with
    | '0' :: 'x' :: digits => make 16 digits
    | '0' :: 'X' :: digits => make 16 digits
    | '0' :: digits => make 8 digits
    | _ => make 10 s

/-- Reads a number of the plain shell: as many digits as its base has. -/
def plainNumber (s : List Char) : Int × Nat :=
  let clamp (n : Nat) : Int := if Int.ofNat n > greatestInteger then greatestInteger else Int.ofNat n
  let take (base skip : Nat) : Option (Int × Nat) :=
    (takeNumber base s.length (s.drop skip)).map fun (n, rest) => (clamp n, s.length - rest.length)
  match s with
  | '0' :: c :: _ =>
    let base := if c == 'x' || c == 'X' then 16 else if c == 'b' || c == 'B' then 2 else 8
    if base == 8 then (take 8 0).getD (0, 1) else (take base 2).getD (0, 1)
  | _ => (take 10 0).getD (0, 1)

/-- Reads the name of a variable and its subscript. -/
def cellAt (d : Dialect) (c : Cursor) : Except ExprFault (Cell × Cursor) :=
  let name := c.rest.takeWhile isNameChar
  let after := c.rest.drop name.length
  match d, after with
  | .bash, '[' :: tail =>
    match upTo? .square tail with
    | some (source, rest) => .ok (⟨name, some source⟩, c.past (c.rest.length - rest.length))
    | none => .error ⟨.subscript, c.rest, []⟩
  | _, _ => .ok (⟨name, none⟩, c.past name.length)

/-- A fault at a place. -/
def mistakeAt {α : Type} (m : Mistake) (c : Cursor) : Except ExprFault α :=
  .error ⟨m, c.token, []⟩

mutual

/-- Reads expressions joined by commas. -/
def commaExpr (d : Dialect) : Nat → Cursor → ExprResult
  | 0, c => mistakeAt .depth c
  | fuel + 1, c => do
    let (a, c) ← assignExpr d fuel c
    if d == .bash && c.starts "," then
      let (b, c) ← commaExpr d fuel (c.past 1)
      return (.comma a b, c)
    else return (a, c)

/-- Reads an assignment. -/
def assignExpr (d : Dialect) : Nat → Cursor → ExprResult
  | 0, c => mistakeAt .depth c
  | fuel + 1, c => do
    let (a, c) ← choiceExpr d fuel c
    match assigner? d c with
    | none => return (a, c)
    | some (sign, op) =>
      match a with
      | .cell cell =>
        let (e, c) ← assignExpr d fuel (c.past sign.length)
        return (.assign cell op e c.token, c)
      | _ => mistakeAt .notVariable c

/-- Reads a choice between two values. -/
def choiceExpr (d : Dialect) : Nat → Cursor → ExprResult
  | 0, c => mistakeAt .depth c
  | fuel + 1, c => do
    let (a, c) ← eitherExpr d fuel c
    if !c.starts "?" then return (a, c)
    else
      let c := c.past 1
      if c.rest.isEmpty || c.starts ":" then mistakeAt .branch c
      else
        let (yes, c) ← commaExpr d fuel c
        if !c.starts ":" then mistakeAt .colon c
        else
          let c := c.past 1
          if c.rest.isEmpty then mistakeAt .branch c
          else
            let (no, c) ← choiceExpr d fuel c
            return (.choice a yes no, c)

/-- Reads conditions of which one must hold. -/
def eitherExpr (d : Dialect) : Nat → Cursor → ExprResult
  | 0, c => mistakeAt .depth c
  | fuel + 1, c => do
    let (a, c) ← bothExpr d fuel c
    if c.starts "||" then
      let (b, c) ← eitherExpr d fuel (c.past 2)
      return (.either a b, c)
    else return (a, c)

/-- Reads conditions that must all hold. -/
def bothExpr (d : Dialect) : Nat → Cursor → ExprResult
  | 0, c => mistakeAt .depth c
  | fuel + 1, c => do
    let (a, c) ← rankExpr d fuel ranks c
    if c.starts "&&" then
      let (b, c) ← bothExpr d fuel (c.past 2)
      return (.both a b, c)
    else return (a, c)

/-- Reads the operators of these ranks. -/
def rankExpr (d : Dialect) : Nat → List (List (String × Operation)) → Cursor → ExprResult
  | 0, _, c => mistakeAt .depth c
  | fuel + 1, [], c => powerExpr d fuel c
  | fuel + 1, rank :: tighter, c => do
    let (a, c) ← rankExpr d fuel tighter c
    moreOfRank d fuel rank tighter a c

/-- Reads the operators of one rank after their first operand. -/
def moreOfRank (d : Dialect) : Nat → List (String × Operation) →
    List (List (String × Operation)) → Expr → Cursor → ExprResult
  | 0, _, _, _, c => mistakeAt .depth c
  | fuel + 1, rank, tighter, a, c => do
    let sign := operatorAt d c
    match rank.lookup sign with
    | none => return (a, c)
    | some op =>
      if d == .bash && c.startsStep then return (a, c)
      else
        let start := c.past sign.length
        let (b, c) ← rankExpr d fuel tighter start
        moreOfRank d fuel rank tighter (.binary op a b start.token) c

/-- Reads a power. -/
def powerExpr (d : Dialect) : Nat → Cursor → ExprResult
  | 0, c => mistakeAt .depth c
  | fuel + 1, c => do
    let (a, c) ← unaryExpr d fuel c
    if d == .bash && c.starts "**" then
      let (b, c) ← powerExpr d fuel (c.past 2)
      return (.binary .power a b c.token, c)
    else return (a, c)

/-- Reads an operand with the signs before it. -/
def unaryExpr (d : Dialect) : Nat → Cursor → ExprResult
  | 0, c => mistakeAt .depth c
  | fuel + 1, c => do
    if d == .bash && c.startsStep then
      let amount : Int := if c.starts "+" then 1 else -1
      let (cell, c) ← cellAt d (c.past 2)
      return (.step cell amount false, c)
    else
      match c.rest with
      | '-' :: _ =>
        let (e, c) ← unaryExpr d fuel (c.past 1)
        return (.negative e, c)
      | '+' :: _ =>
        let (e, c) ← unaryExpr d fuel (c.past 1)
        return (.grouped e, c)
      | '!' :: _ =>
        let (e, c) ← unaryExpr d fuel (c.past 1)
        return (.isZero e, c)
      | '~' :: _ =>
        let (e, c) ← unaryExpr d fuel (c.past 1)
        return (.complement e, c)
      | '(' :: _ =>
        let (e, c) ← commaExpr d fuel (c.past 1)
        if c.starts ")" then return (.grouped e, c.past 1) else mistakeAt .bracket c
      | k :: _ =>
        if k.isDigit then
          match d with
          | .plain =>
            let (n, size) := plainNumber c.rest
            return (.number n, c.past size)
          | .bash =>
            let isPart := fun (k : Char) => k.isAlphanum || k == '#' || k == '@' || k == '_'
            let digits := c.rest.takeWhile isPart
            match numberOf digits with
            | .ok n => return (.number n, c.past digits.length)
            | .error m => .error ⟨m, digits, c.rest.drop digits.length⟩
        else if isNameStart k then
          let (cell, c) ← cellAt d c
          if d == .bash && !c.startsStep && (c.starts "++" || c.starts "--") then
            return (.step cell (if c.starts "+" then 1 else -1) true, c.past 2)
          else return (.cell cell, c)
        else mistakeAt .operand c
      | [] => mistakeAt .operand c

end

/-- Characters that operators are made of. -/
def isOperatorChar (c : Char) : Bool :=
  "=!~+-*/%&|^<>?:(),".toList.contains c

/-- Reads a whole expression. -/
def Expr.ofText (d : Dialect) (s : List Char) : Except ExprFault Expr :=
  let start : Cursor := ⟨[], s.dropWhile Cursor.isBlank⟩
  if start.rest.isEmpty && d == .bash then .ok (.number 0)
  else
    match commaExpr d (20 * s.length + 40) start with
    | .ok (e, c) =>
      match c.rest with
      | [] => .ok e
      | k :: _ =>
        let known := isOperatorChar k || isNameChar k
        .error ⟨if known then .trailing else .operator, c.rest, s⟩
    | .error ⟨.digit, token, after⟩ => .error ⟨.digit, token, s.take (s.length - after.length)⟩
    | .error ⟨.base, token, after⟩ => .error ⟨.base, token, s.take (s.length - after.length)⟩
    | .error f => .error { f with text := s }

end CompilerRemarks.Shell
