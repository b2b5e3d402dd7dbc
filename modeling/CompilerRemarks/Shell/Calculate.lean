/-
  CompilerRemarks.Shell.Calculate

  The values of expressions in a shell, and the assignment of variables,
  which may ask for one.
-/
import CompilerRemarks.Shell.Stream

namespace CompilerRemarks.Shell

/-! ## Operations -/

/-- A power, with each product cut to a machine word. -/
def powerOf : Nat → Int → Nat → Int
  | 0, _, _ => 1
  | fuel + 1, base, n =>
    if n == 0 then 1
    else
      let half := powerOf fuel (wrapped (base * base)) (n / 2)
      if n % 2 == 1 then wrapped (base * half) else half

/-- One for truth and zero for falsehood. -/
def truth (b : Bool) : Int :=
  if b then 1 else 0

/-- The value of an operation. A divisor is not zero, and an exponent not
    below it. -/
def Operation.apply (op : Operation) (a b : Int) : Int :=
  let places := (b % 64).toNat
  match op with
  | .add => wrapped (a + b)
  | .sub => wrapped (a - b)
  | .mul => wrapped (a * b)
  | .div => wrapped (Int.tdiv a b)
  | .mod => Int.tmod a b
  | .power => powerOf 64 a b.toNat
  | .shiftLeft => wrapped (a * Int.ofNat (Nat.pow 2 places))
  | .shiftRight => Int.fdiv a (Int.ofNat (Nat.pow 2 places))
  | .less => truth (a < b)
  | .lessEq => truth (a ≤ b)
  | .greater => truth (a > b)
  | .greaterEq => truth (a ≥ b)
  | .equal => truth (a == b)
  | .notEqual => truth (a != b)
  | .bitAnd => (Int64.ofInt a &&& Int64.ofInt b).toInt
  | .bitXor => (Int64.ofInt a ^^^ Int64.ofInt b).toInt
  | .bitOr => (Int64.ofInt a ||| Int64.ofInt b).toInt

/-- What is wrong with the operands of an operation. -/
def Operation.mistake? (op : Operation) (b : Int) : Option Mistake :=
  match op with
  | .div => if b == 0 then some .division else none
  | .mod => if b == 0 then some .division else none
  | .power => if b < 0 then some .exponent else none
  | _ => none

/-- The decimal digits of an integer. -/
def integerText (n : Int) : List Char :=
  if n < 0 then '-' :: Nat.toDigits 10 n.natAbs else Nat.toDigits 10 n.natAbs

/-! ## Parameters -/

/-- The value of a variable that the shell itself keeps. -/
def Machine.kept? (m : Machine) (name : List Char) : Option Value :=
  let number (n : Nat) : Option Value := some (.text (Nat.toDigits 10 n))
  let list (items : List (List Char)) : Option Value :=
    some (.listed ((items.zipIdx).map fun (s, k) => (k, s)))
  match String.ofList name with
  | "LINENO" => number m.line
  | "PPID" => number m.parent
  | "_" => some (.text m.lastWord)
  | known =>
    if !m.isBash then none
    else
      match known with
      | "BASHPID" => number m.process
      | "SECONDS" => number (m.clock / 1000000)
      | "PIPESTATUS" => list (m.statuses.map (Nat.toDigits 10 ·))
      | "FUNCNAME" => if m.calls.isEmpty then none else list (m.calls ++ ["main".toList])
      | "BASH_SUBSHELL" => number m.copies
      | "BASH_SOURCE" => if m.isInline then none else list [m.source]
      | "UID" => number 0
      | "EUID" => number 0
      | _ => none

/-- The value of a variable. -/
def Machine.value? (m : Machine) (name : List Char) : Option Value :=
  match m.kept? name with
  | some v => some v
  | none => (m.find? name).bind (·.value)

/-- The text of a parameter other than the list of all arguments. -/
def Machine.text? (m : Machine) (name : List Char) : Option (List Char) :=
  match name with
  | ['0'] => some m.name
  | ['#'] => some (Nat.toDigits 10 m.arguments.length)
  | ['?'] => some (Nat.toDigits 10 m.last)
  | ['$'] => some (Nat.toDigits 10 m.mainProcess)
  | ['!'] => m.jobs.head?.map fun j => Nat.toDigits 10 j.process
  | _ =>
    match Text.digits? 10 name with
    | some n => m.arguments[n - 1]?
    | none => (m.value? name).bind Value.text?

/-! ## Values of expressions -/

/-- A calculation, which may fail. -/
abbrev Calculation := ExceptT ExprFault Act

/-- A fault that was reported already. -/
def reported : ExprFault :=
  ⟨.value, [], []⟩

/-- The number that the value of a variable is in the plain shell. -/
def plainValue (s : List Char) : Except ExprFault Int :=
  let trimmed := (s.dropWhile Cursor.isBlank).reverse.dropWhile Cursor.isBlank |>.reverse
  let (sign, digits) : Int × List Char := match trimmed with
    | '-' :: rest => (-1, rest)
    | '+' :: rest => (1, rest)
    | rest => (1, rest)
  if trimmed.isEmpty then .ok 0
  else if (digits.head?.map Char.isDigit).getD false then
    let (n, size) := plainNumber digits
    if size == digits.length then .ok (sign * n) else .error ⟨.value, [], s⟩
  else .error ⟨.value, [], s⟩

/-- Refuses to change a variable. -/
def refuseChange (name : List Char) : Act Unit := do
  let m ← get
  complain (String.ofList name ++
    (if m.isBash then ": readonly variable" else ": is read only"))
  match m.dialect with
  | .bash =>
    endWith 1
    leave .discarding
  | .plain => leave (.exit (.code 2))

/-- The number of an element: negative ones count from the end. -/
def elementNumber? (v : Option Value) (n : Int) : Option Nat :=
  let size := match v with
    | some (.listed items) => (items.getLast?.map (·.1 + 1)).getD 0
    | some (.text _) => 1
    | _ => 0
  if n ≥ 0 then some n.toNat
  else if Int.ofNat size + n ≥ 0 then some (Int.ofNat size + n).toNat
  else none

/-- Sets an element of a variable. -/
def setElement (m : Machine) (name : List Char) (n : Nat) (s : List Char) : Machine :=
  let v := (m.find? name).getD (.unset name)
  let old := match v.value with
    | some (.listed items) => items
    | some (.text t) => [(0, t)]
    | _ => []
  m.put { v with value := some (.listed (putListed n s old)) }

/-- Sets an element by key. -/
def setKeyed (m : Machine) (name key s : List Char) : Machine :=
  let v := (m.find? name).getD (.unset name)
  let old := match v.value with
    | some (.keyed items) => items
    | _ => []
  m.put { v with value := some (.keyed (putKeyed key s old)) }

/-- Sets the text of a variable, or its first element. -/
def setPlain (m : Machine) (name s : List Char) : Machine :=
  match (m.find? name).bind (·.value) with
  | some (.listed _) => setElement m name 0 s
  | some (.keyed _) => setKeyed m name ['0'] s
  | _ => m.setText name s

/-- Whether a variable has keys. -/
def Machine.isKeyed (m : Machine) (name : List Char) : Bool :=
  match (m.find? name).bind (·.value) with
  | some (.keyed _) => true
  | _ => false

/-- Quotes around a key are no part of it. -/
def keyOf (s : List Char) : List Char :=
  s.filter fun c => c != '"' && c != '\''

/-- The value of what was read, or why it could not be. -/
def liftExcept (r : Except ExprFault Int) : Calculation Int :=
  match r with
  | .ok n => return n
  | .error f => throw f

/-- A fault with the text that it is about. -/
def ExprFault.about (f : ExprFault) (s : List Char) : ExprFault :=
  if f.text.isEmpty && f != reported then { f with text := s } else f

mutual

/-- The value of an expression. -/
def evaluate : Nat → Expr → Calculation Int
  | 0, _ => throw ⟨.depth, [], []⟩
  | fuel + 1, e => do
    match e with
    | .number n => return n
    | .cell c => cellValue fuel c
    | .negative e => return wrapped (-(← evaluate fuel e))
    | .complement e => return -(← evaluate fuel e) - 1
    | .isZero e => return truth ((← evaluate fuel e) == 0)
    | .grouped e => evaluate fuel e
    | .binary op a b token =>
      let x ← evaluate fuel a
      let y ← evaluate fuel b
      match op.mistake? y with
      | some mistake => throw ⟨mistake, token, []⟩
      | none => return op.apply x y
    | .both a b =>
      if (← evaluate fuel a) == 0 then return 0 else return truth ((← evaluate fuel b) != 0)
    | .either a b =>
      if (← evaluate fuel a) != 0 then return 1 else return truth ((← evaluate fuel b) != 0)
    | .choice c a b => if (← evaluate fuel c) != 0 then evaluate fuel a else evaluate fuel b
    | .assign c none e _ =>
      let n ← evaluate fuel e
      putCell fuel c n
      return n
    | .assign c (some op) e token =>
      let x ← cellValue fuel c
      let y ← evaluate fuel e
      match op.mistake? y with
      | some mistake => throw ⟨mistake, token, []⟩
      | none =>
        let n := op.apply x y
        putCell fuel c n
        return n
    | .step c amount before =>
      let x ← cellValue fuel c
      let n := wrapped (x + amount)
      putCell fuel c n
      return if before then x else n
    | .comma a b =>
      let _ ← evaluate fuel a
      evaluate fuel b

/-- The value of a text. -/
def textValue : Nat → List Char → Calculation Int
  | 0, s => throw ⟨.depth, s, s⟩
  | fuel + 1, s => do
    let m ← get
    match m.dialect with
    | .plain => liftExcept (plainValue s)
    | .bash =>
      match Expr.ofText .bash s with
      | .error f => throw f
      | .ok e => tryCatch (evaluate fuel e) fun f => throw (f.about s)

/-- The value of a variable or an element. -/
def cellValue : Nat → Cell → Calculation Int
  | 0, c => throw ⟨.depth, c.name, c.name⟩
  | fuel + 1, c => do
    let m ← get
    let found ← match c.subscript with
      | none => pure (m.text? c.name)
      | some source =>
        if m.isKeyed c.name then
          match m.value? c.name with
          | some (.keyed items) => pure (items.lookup (keyOf source))
          | _ => pure none
        else do
          let n ← textValue fuel source
          let v := m.value? c.name
          pure ((elementNumber? v n).bind fun k => match v with
            | some (.listed items) => items.lookup k
            | some (.text s) => if k == 0 then some s else none
            | _ => none)
    match found with
    | some s => textValue fuel s
    | none =>
      if m.has "nounset" then
        complain (String.ofList c.name ++
          (if m.isBash then ": unbound variable" else ": parameter not set"))
        leave (.exit (.code (if !m.isBash then 2 else if m.isInline then 127 else 1)))
        throw reported
      else return 0

/-- Sets a variable or an element to a number. -/
def putCell : Nat → Cell → Int → Calculation Unit
  | 0, c, _ => throw ⟨.depth, c.name, c.name⟩
  | fuel + 1, c, n => do
    let m ← get
    if ((m.find? c.name).map (·.readOnly)).getD false then
      refuseChange c.name
      throw reported
    else
      let s := integerText n
      match c.subscript with
      | none => modify fun m => setPlain m c.name s
      | some source =>
        if m.isKeyed c.name then modify fun m => setKeyed m c.name (keyOf source) s
        else
          let k ← textValue fuel source
          match elementNumber? (m.value? c.name) k with
          | some k => modify fun m => setElement m c.name k s
          | none => throw ⟨.subscript, source, source⟩

end

/-- How deep variables may name each other. -/
def expressionDepth : Nat := 1024

/-- The value of an expression; a complaint starts with `title`. -/
def calculate (title : String) (s : List Char) : Act (Option Int) := do
  let d := (← get).dialect
  let outcome ← match Expr.ofText d s with
    | .error f => pure (.error f)
    | .ok e => (evaluate expressionDepth e).run
  match outcome with
  | .ok n => return some n
  | .error f =>
    let f := f.about s
    if f != reported then complain (title ++ f.message d)
    return none

/-- Gives up the commands that were read together. -/
def discard : Act Unit := do
  let m ← get
  if m.leaving.isNone then
    match m.dialect with
    | .bash =>
      endWith 1
      leave .discarding
    | .plain => leave (.exit (.code 2))

/-- Gives up all that is being read within the script. -/
def abandon : Act Unit := do
  discard
  modify fun m =>
    { m with leaving := if m.leaving == some .discarding then some .abandoning else m.leaving }

/-- The value of the subscript of an element; without one the script is given
    up as far as it was read. -/
def calculateSubscript (title : String) (s : List Char) : Act (Option Int) := do
  let n ← calculate title s
  if n.isNone then abandon
  return n

/-- The value of an expression in a word; without one the command is given
    up. -/
def calculateOrDiscard (title : String) (s : List Char) : Act (Option Int) := do
  let n ← calculate title s
  if n.isNone then discard
  return n

/-! ## Assignment -/

/-- Letters in upper or lower case. -/
def recased (casing : Option Bool) (s : List Char) : List Char :=
  match casing with
  | some true => s.map Char.toUpper
  | some false => s.map Char.toLower
  | none => s

/-- Assigns a text to a variable or an element; tells whether it could. -/
def assignText (title : String) (name : List Char) (subscript : Option (List Char)) (adds : Bool)
    (s : List Char) : Act Bool := do
  let m ← get
  let v := (m.find? name).getD (.unset name)
  if v.readOnly then
    refuseChange name
    return false
  else
    let finish (old : Option (List Char)) (store : List Char → Machine → Machine) : Act Bool := do
      if v.integer then
        match ← calculateOrDiscard title s with
        | none => return false
        | some n =>
          let before ← match old with
            | some t => if adds then calculateOrDiscard title t else pure (some 0)
            | none => pure (some 0)
          modify (store (integerText (wrapped (n + before.getD 0))))
      else
        let before := if adds then old.getD [] else []
        modify (store (recased v.casing (before ++ s)))
      let m ← get
      if m.has "allexport" then
        match m.find? name with
        | some v => modify (·.put { v with exported := true })
        | none => pure ()
      return true
    match subscript with
    | none => finish (m.text? name) fun t m => setPlain m name t
    | some source =>
      match v.value with
      | some (.keyed items) => finish (items.lookup source) fun t m => setKeyed m name source t
      | value =>
        match ← calculateSubscript title source with
        | none => return false
        | some n =>
          match elementNumber? value n with
          | some k =>
            let old := match value with
              | some (.listed items) => items.lookup k
              | some (.text t) => if k == 0 then some t else none
              | _ => none
            finish old fun t m => setElement m name k t
          | none =>
            complain (title ++ String.ofList name ++ "[" ++ String.ofList source ++
              "]: bad array subscript")
            discard
            return false

/-- The last number of an array and one more. -/
def nextNumber (v : Option Value) : Nat :=
  match v with
  | some (.listed items) => (items.getLast?.map (·.1 + 1)).getD 0
  | some (.text _) => 1
  | _ => 0

/-- Assigns the elements of an array. -/
def assignElements (title : String) (name : List Char) (adds : Bool)
    (items : List (Option (List Char) × List Char)) : Act Bool := do
  let m ← get
  let v := (m.find? name).getD (.unset name)
  if v.readOnly then
    refuseChange name
    return false
  else
    let empty : Value := match v.value with
      | some (.keyed _) => .keyed []
      | _ => .listed []
    if !adds then modify (·.put { v with value := some empty })
    else if v.value.isNone then modify (·.put { v with value := some empty })
    let mut next := if adds then nextNumber v.value else 0
    let mut pendingKey : Option (List Char) := none
    for (subscript, s) in items do
      if ← goesOn then
        match subscript with
        | some source =>
          let _ ← assignText title name (some source) false s
          if !(← get).isKeyed name then
            next := ((← calculate title source).map (·.toNat + 1)).getD next
        | none =>
          if (← get).isKeyed name then
            match pendingKey with
            | none => pendingKey := some s
            | some key =>
              let _ ← assignText title name (some key) false s
              pendingKey := none
          else
            let _ ← assignText title name (some (Nat.toDigits 10 next)) false s
            next := next + 1
    match pendingKey with
    | some key =>
      let _ ← assignText title name (some key) false []
    | none => pure ()
    goesOn

end CompilerRemarks.Shell
