/-
  CompilerRemarks.Shell.Test

  Conditions given as arguments. Both shells look at the number of arguments
  before they read them as an expression, each in its own way.
-/
import CompilerRemarks.Shell.Calculate

namespace CompilerRemarks.Shell

/-! ## Faults -/

/-- Why a condition has no answer. -/
inductive TestFault where
  | notNumber (s : List Char)
  | notUnary (s : List Char)
  | notBinary (s : List Char)
  | unexpectedOperator (s : List Char)
  | tooMany
  | argument (op : List Char)
  | bracket (found : Option (List Char))
  | unclosed

/-- The wording of a test that has no answer. -/
def TestFault.message (d : Dialect) : TestFault → String
  | .notNumber s =>
    if d == .bash then String.ofList s ++ ": integer expression expected"
    else "Illegal number: " ++ String.ofList s
  | .notUnary s => String.ofList s ++ ": unary operator expected"
  | .notBinary s => String.ofList s ++ ": binary operator expected"
  | .unexpectedOperator s => String.ofList s ++ ": unexpected operator"
  | .tooMany => "too many arguments"
  | .argument op => if op.isEmpty then "argument expected" else String.ofList op ++ ": argument expected"
  | .bracket none => if d == .bash then "`)' expected" else "closing paren expected"
  | .bracket (some s) => "`)' expected, found " ++ String.ofList s
  | .unclosed => if d == .bash then "missing `]'" else "missing ]"

/-! ## Operators -/

/-- The tests of one text. -/
def unaryNames (d : Dialect) : List (List Char) :=
  match d with
  | .bash => ("abcdefghknoprstuvwxzGLNORS".toList).map fun c => ['-', c]
  | .plain => ("rwxefdcbpugkstznhLOGS".toList).map fun c => ['-', c]

/-- The tests of two texts. -/
def binaryNames (d : Dialect) : List (List Char) :=
  (["=", "!=", "<", ">", "-eq", "-ne", "-lt", "-le", "-gt", "-ge", "-nt", "-ot", "-ef"] ++
    (if d == .bash then ["=="] else [])).map String.toList

/-- The integer of an argument; blanks around it do not count. -/
def testInteger? (s : List Char) : Option Int :=
  let trimmed := (s.dropWhile Cursor.isBlank).reverse.dropWhile Cursor.isBlank |>.reverse
  (match trimmed with
    | '-' :: digits => (Text.digits? 10 digits).map fun n => -(Int.ofNat n)
    | '+' :: digits => (Text.digits? 10 digits).map Int.ofNat
    | digits => (Text.digits? 10 digits).map Int.ofNat).filter fun n =>
      leastInteger ≤ n && n ≤ greatestInteger

/-- Compares two texts as integers. -/
def compareIntegers (test : Int → Int → Bool) (a b : List Char) : Except TestFault Bool :=
  match testInteger? a, testInteger? b with
  | some x, some y => .ok (test x y)
  | none, _ => .error (.notNumber a)
  | _, none => .error (.notNumber b)

/-- The order of numbers that an operator asks for. -/
def numberTest? (op : List Char) : Option (Int → Int → Bool) :=
  match String.ofList op with
  | "-eq" => some (· == ·)
  | "-ne" => some (· != ·)
  | "-lt" => some (· < ·)
  | "-le" => some (· ≤ ·)
  | "-gt" => some (· > ·)
  | "-ge" => some (· ≥ ·)
  | _ => none

/-- Whether a variable or an element of an array is set. -/
def Machine.isSet (m : Machine) (s : List Char) : Bool :=
  let (name, tail) := s.span (· ≠ '[')
  let subscript := (tail.drop 1).takeWhile (· ≠ ']')
  match m.value? name, tail with
  | none, _ => (m.text? name).isSome
  | some v, [] => v.text?.isSome
  | some v, _ =>
    if subscript == ['@'] || subscript == ['*'] then !v.elements.isEmpty
    else v.elements.any (·.1 == keyOf subscript)

/-- What a test of one text says. -/
def Machine.unaryTest (m : Machine) (op s : List Char) : Bool :=
  let p := pathOf s
  let entry := (m.files.find p).toOption
  match op with
  | ['-', 'z'] => s.isEmpty
  | ['-', 'n'] => !s.isEmpty
  | ['-', 'f'] => (entry.map Entry.isFile).getD false
  | ['-', 'd'] => (entry.map Entry.isDirectory).getD false
  | ['-', 'x'] => (entry.map fun e => e.isExecutable || e.isDirectory).getD false
  | ['-', 's'] => match entry.map Entry.contents with
    | some (.ok bytes) => !bytes.isEmpty
    | some (.error _) => true
    | none => false
  | ['-', 'c'] => match entry with
    | some (.device _) => true
    | _ => false
  | ['-', 'v'] => m.isSet s
  | ['-', 'o'] => m.has (String.ofList s)
  | ['-', c] => "aerwOG".toList.contains c && entry.isSome
  | _ => false

/-- Whether two paths lead to the same file. -/
def Machine.isSameFile (m : Machine) (a b : List Char) : Bool :=
  match m.files.locate (pathOf a), m.files.locate (pathOf b) with
  | .ok x, .ok y => x == y
  | _, _ => false

/-- What a test of two texts says. -/
def Machine.binaryTest (m : Machine) (a op b : List Char) : Except TestFault Bool :=
  let isThere (s : List Char) : Bool := (m.files.find (pathOf s)).isOk
  match numberTest? op with
  | some test => compareIntegers test a b
  | none =>
    match String.ofList op with
    | "=" => .ok (a == b)
    | "==" => .ok (a == b)
    | "!=" => .ok (a != b)
    | "<" => .ok (a != b && Path.charsLe a b)
    | ">" => .ok (a != b && Path.charsLe b a)
    | "-nt" => .ok (isThere a && !isThere b)
    | "-ot" => .ok (!isThere a && isThere b)
    | "-ef" => .ok (m.isSameFile a b)
    | _ => .ok false

/-! ## Expressions of the shell with extensions -/

/-- An answer and the arguments that are left. -/
abbrev TestResult := Except TestFault (Bool × List (List Char))

mutual

/-- Reads alternatives. -/
def testOr (m : Machine) : Nat → List (List Char) → TestResult
  | 0, _ => .error .tooMany
  | fuel + 1, args => do
    let (a, rest) ← testAnd m fuel args
    match rest with
    | ['-', 'o'] :: rest =>
      let (b, rest) ← testOr m fuel rest
      return (a || b, rest)
    | rest => return (a, rest)

/-- Reads conditions that must all hold. -/
def testAnd (m : Machine) : Nat → List (List Char) → TestResult
  | 0, _ => .error .tooMany
  | fuel + 1, args => do
    let (a, rest) ← testTerm m fuel args
    match rest with
    | ['-', 'a'] :: rest =>
      let (b, rest) ← testAnd m fuel rest
      return (a && b, rest)
    | rest => return (a, rest)

/-- Reads a single test. -/
def testTerm (m : Machine) : Nat → List (List Char) → TestResult
  | 0, _ => .error .tooMany
  | fuel + 1, args => do
    match args with
    | [] => .error (.argument [])
    | ['!'] :: rest =>
      let (a, rest) ← testTerm m fuel rest
      return (!a, rest)
    | ['('] :: rest =>
      if rest.isEmpty then .error (.argument [])
      else
        let (a, rest) ← testOr m fuel rest
        match rest with
        | [')'] :: rest => return (a, rest)
        | s :: _ => .error (.bracket (some s))
        | [] => .error (.bracket none)
    | a :: rest =>
      match rest with
      | op :: b :: after =>
        if (binaryNames .bash).contains op then return (← m.binaryTest a op b, after)
        else if (unaryNames .bash).contains a then return (m.unaryTest a op, b :: after)
        else return (!a.isEmpty, rest)
      | [s] =>
        if (unaryNames .bash).contains a then return (m.unaryTest a s, [])
        else return (!a.isEmpty, rest)
      | [] => return (!a.isEmpty, [])

end

/-- A whole expression of arguments. -/
def testExpression (m : Machine) (args : List (List Char)) : Except TestFault Bool := do
  let (answer, rest) ← testOr m (3 * args.length + 3) args
  if rest.isEmpty then return answer else .error .tooMany

/-- A condition of two arguments. -/
def testTwo (m : Machine) (a b : List Char) : Except TestFault Bool :=
  if a == ['!'] then .ok b.isEmpty
  else if (unaryNames .bash).contains a then .ok (m.unaryTest a b)
  else .error (.notUnary a)

/-- A condition of three arguments. -/
def testThree (m : Machine) (a op b : List Char) : Except TestFault Bool :=
  if (binaryNames .bash).contains op then m.binaryTest a op b
  else if op == ['-', 'a'] then .ok (!a.isEmpty && !b.isEmpty)
  else if op == ['-', 'o'] then .ok (!a.isEmpty || !b.isEmpty)
  else if a == ['!'] then (testTwo m op b).map (!·)
  else if a == ['('] && b == [')'] then .ok (!op.isEmpty)
  else .error (.notBinary op)

/-- A condition by the number of its arguments. -/
def bashTest (m : Machine) : List (List Char) → Except TestFault Bool
  | [] => .ok false
  | [s] => .ok (!s.isEmpty)
  | [a, b] => testTwo m a b
  | [a, op, b] => testThree m a op b
  | [a, b, c, e] =>
    if a == ['!'] then (testThree m b c e).map (!·)
    else if a == ['('] && e == [')'] then testTwo m b c
    else testExpression m [a, b, c, e]
  | args => testExpression m args

/-! ## Expressions of the plain shell -/

/-- What an argument is to the plain shell. -/
inductive TestToken where
  | ended
  | operand
  | unary
  | binary
  | bang
  | both
  | either
  | opening
  | closing
  deriving DecidableEq

/-- What the first of some arguments is: a test of one text is an operand
    where nothing, or a test of two, follows. -/
def testToken : List (List Char) → TestToken
  | [] => .ended
  | s :: rest =>
    let isOperand : Bool := match rest with
      | [] => true
      | [_] => false
      | next :: _ => (binaryNames .plain).contains next
    if (unaryNames .plain).contains s then (if isOperand then .operand else .unary)
    else if (binaryNames .plain).contains s then .binary
    else if s == ['!'] then .bang
    else if s == ['-', 'a'] then .both
    else if s == ['-', 'o'] then .either
    else if s == ['('] then (if rest.isEmpty then .operand else .opening)
    else if s == [')'] then .closing
    else .operand

mutual

/-- Reads alternatives; the answer leaves the arguments from the last one
    that was read on. -/
def plainOr (m : Machine) : Nat → Bool → TestToken → List (List Char) → TestResult
  | 0, _, _, _ => .error .tooMany
  | fuel + 1, before, token, args => do
    let (a, at_) ← plainAnd m fuel true token args
    if testToken (at_.drop 1) == .either then
      plainOr m fuel (before || a) (testToken (at_.drop 2)) (at_.drop 2)
    else return (before || a, at_)

/-- Reads conditions that must all hold. -/
def plainAnd (m : Machine) : Nat → Bool → TestToken → List (List Char) → TestResult
  | 0, _, _, _ => .error .tooMany
  | fuel + 1, before, token, args => do
    let (a, at_) ← plainNot m fuel token args
    if testToken (at_.drop 1) == .both then
      plainAnd m fuel (before && a) (testToken (at_.drop 2)) (at_.drop 2)
    else return (before && a, at_)

/-- Reads a test, perhaps negated. -/
def plainNot (m : Machine) : Nat → TestToken → List (List Char) → TestResult
  | 0, _, _ => .error .tooMany
  | fuel + 1, token, args => do
    if token == .bang then
      let next := testToken (args.drop 1)
      let (a, at_) ← plainNot m fuel next (if next == .ended then args else args.drop 1)
      return (!a, at_)
    else plainTerm m fuel token args

/-- Reads a single test. -/
def plainTerm (m : Machine) : Nat → TestToken → List (List Char) → TestResult
  | 0, _, _ => .error .tooMany
  | fuel + 1, token, args => do
    match token with
    | .ended => return (false, args)
    | .opening =>
      let inner := args.drop 1
      if testToken inner == .closing then return (false, inner)
      else
        let (a, at_) ← plainOr m fuel false (testToken inner) inner
        if testToken (at_.drop 1) == .closing then return (a, at_.drop 1)
        else .error (.bracket none)
    | .unary =>
      match args with
      | op :: s :: _ => return (m.unaryTest op s, args.drop 1)
      | op :: _ => .error (.argument op)
      | [] => .error (.argument [])
    | _ =>
      if testToken (args.drop 1) == .binary then
        match args with
        | a :: op :: b :: _ => return (← m.binaryTest a op b, args.drop 2)
        | _ :: op :: _ => .error (.argument op)
        | _ => .error (.argument [])
      else return (!((args.head?.getD []).isEmpty), args)

end

/-- A condition in the plain shell. Of three or four arguments brackets around
    the others and a negation in front are taken off first; a second negation
    in front says no more than the first. -/
def plainTest (m : Machine) (args : List (List Char)) : Except TestFault Bool :=
  let isBinary (args : List (List Char)) : Bool := match args with
    | [_, op, _] => (binaryNames .plain).contains op
    | _ => false
  let isLong (args : List (List Char)) : Bool := args.length == 3 || args.length == 4
  let isWrapped (args : List (List Char)) : Bool :=
    isLong args && args.head? == some ['('] && args.getLast? == some [')']
  let isNegated (args : List (List Char)) : Bool :=
    isLong args && args.head? == some ['!'] && !isBinary args
  let bare := if isNegated args then args.drop 1 else args
  let bare := if isNegated bare then bare.drop 1 else bare
  if bare.isEmpty then .ok false
  else do
    let inner := if isBinary bare || !isWrapped bare then bare else (bare.drop 1).dropLast
    let token := if isBinary bare then .operand else testToken inner
    let (answer, at_) ← plainOr m (4 * args.length + 4) false token inner
    match at_ with
    | s :: _ :: _ => .error (.unexpectedOperator s)
    | _ => return answer != isNegated args

/-- Whether a condition holds. -/
def Machine.test (m : Machine) (args : List (List Char)) : Except TestFault Bool :=
  match m.dialect with
  | .bash => bashTest m args
  | .plain => plainTest m args

end CompilerRemarks.Shell
