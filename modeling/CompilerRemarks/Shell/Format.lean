/-
  CompilerRemarks.Shell.Format

  Printing texts: by a format with directives, and as they are.
-/
import CompilerRemarks.Shell.Brace
import CompilerRemarks.Shell.Expr
import CompilerRemarks.Shell.Quote

namespace CompilerRemarks.Shell

/-! ## Plain texts -/

/-- The words of a line with blanks between them. -/
def spaced : List (List Char) → List Char
  | [] => []
  | [w] => w
  | w :: rest => w ++ ' ' :: spaced rest

/-- Reads the options of `echo`: no line end, and escapes. -/
def echoOptions (newline escapes : Bool) : List (List Char) → Bool × Bool × List (List Char)
  | ('-' :: c :: more) :: rest =>
    let letters := c :: more
    if letters.all fun c => c == 'n' || c == 'e' || c == 'E' then
      let step := fun (e : Bool) (c : Char) => if c == 'e' then true else if c == 'E' then false else e
      echoOptions (newline && !letters.contains 'n') (letters.foldl step escapes) rest
    else (newline, escapes, ('-' :: c :: more) :: rest)
  | rest => (newline, escapes, rest)

/-- What `echo` prints. The plain shell always reads escapes and has one
    option. -/
def echo (d : Dialect) (args : List (List Char)) : List UInt8 :=
  let (newline, escapes, args) := match d with
    | .bash => echoOptions true false args
    | .plain => match args with
      | ['-', 'n'] :: rest => (false, true, rest)
      | _ => (true, true, args)
  let text := spaced args
  let (bytes, stop) :=
    if escapes then unescape d .printed (text.length + 1) text else (bytesOf text, false)
  bytes ++ (if newline && !stop then [10] else [])

/-! ## Fractions -/

/-- A quotient to the nearest integer; of two, to the even one. -/
def roundedQuotient (n d : Nat) : Nat :=
  let q := n / d
  let r := n % d
  if 2 * r < d then q else if 2 * r > d then q + 1 else if q % 2 == 0 then q else q + 1

/-- A fraction that is not negative. -/
structure Fraction where
  num : Nat
  den : Nat

/-- How many binary digits a printed number has. -/
def significant (d : Dialect) : Nat :=
  match d with
  | .bash => 64
  | .plain => 53

/-- The nearest fraction with so many binary digits. -/
def Fraction.toBinary (bits : Nat) (f : Fraction) : Fraction :=
  if f.num == 0 then ⟨0, 1⟩
  else
    let least : Int := Int.ofNat (Nat.log2 f.num) - Int.ofNat (Nat.log2 f.den) - Int.ofNat bits
    let shrink (scale : Int) : Nat := Nat.pow 2 scale.toNat
    let grow (scale : Int) : Nat := Nat.pow 2 (-scale).toNat
    let fits := f.num * grow least / (f.den * shrink least) < Nat.pow 2 bits
    let scale := if fits then least else least + 1
    let m := roundedQuotient (f.num * grow scale) (f.den * shrink scale)
    ⟨m * shrink scale, grow scale⟩

/-- Reads a decimal number from the start of a text, and what is left. -/
def fraction? (s : List Char) : Option (Bool × Fraction × List Char) :=
  let s := s.dropWhile Cursor.isBlank
  let (isNegative, s) := match s with
    | '-' :: rest => (true, rest)
    | '+' :: rest => (false, rest)
    | _ => (false, s)
  let (whole, s) := s.span Char.isDigit
  let (places, s) := match s with
    | '.' :: rest => rest.span Char.isDigit
    | _ => ([], s)
  if whole.isEmpty && places.isEmpty then none
  else
    let (exponent, s) : Int × List Char := match s with
      | c :: rest =>
        if c == 'e' || c == 'E' then
          let (sign, digits) := rest.span fun c => c == '-' || c == '+'
          let (digits, after) := digits.span Char.isDigit
          match wholeNumber? (sign ++ digits) with
          | some n => (n, after)
          | none => (0, s)
        else (0, s)
      | [] => (0, s)
    let digits := (Text.digits? 10 (whole ++ places)).getD 0
    let power := exponent - Int.ofNat places.length
    some (isNegative, ⟨digits * Nat.pow 10 power.toNat, Nat.pow 10 (-power).toNat⟩, s)

/-- A fraction with a fixed number of places. -/
def Fraction.fixed (f : Fraction) (places : Nat) (point : Bool) : List Char :=
  let n := roundedQuotient (f.num * Nat.pow 10 places) f.den
  let digits := Nat.toDigits 10 n
  let digits := List.replicate (places + 1 - digits.length) '0' ++ digits
  let whole := digits.take (digits.length - places)
  whole ++ (if places > 0 || point then ['.'] else []) ++ digits.drop (digits.length - places)

/-- The decimal exponent of a fraction, and its digits without a point. -/
def Fraction.scientificParts (f : Fraction) (places : Nat) : Int × List Char :=
  if f.num == 0 then (0, List.replicate (places + 1) '0')
  else
    let about : Int := Int.ofNat (Nat.toDigits 10 f.num).length - Int.ofNat (Nat.toDigits 10 f.den).length
    let at_ (e : Int) : Nat :=
      let shift := Int.ofNat places - e
      roundedQuotient (f.num * Nat.pow 10 shift.toNat) (f.den * Nat.pow 10 (-shift).toNat)
    let e := if at_ about ≥ Nat.pow 10 places then about else about - 1
    let n := at_ e
    if n ≥ Nat.pow 10 (places + 1) then (e + 1, Nat.toDigits 10 (at_ (e + 1))) else (e, Nat.toDigits 10 n)

/-- A fraction with an exponent. -/
def Fraction.scientific (f : Fraction) (places : Nat) (point : Bool) : List Char :=
  let (e, digits) := f.scientificParts places
  let exponent := Nat.toDigits 10 e.natAbs
  digits.take 1 ++ (if places > 0 || point then ['.'] else []) ++ digits.drop 1 ++
    ['e', if e < 0 then '-' else '+'] ++ List.replicate (2 - exponent.length) '0' ++ exponent

/-- A number without zeros at the end of its places. -/
def trimPlaces (s : List Char) : List Char :=
  let (mantissa, exponent) := s.span (· ≠ 'e')
  if mantissa.contains '.' then
    let kept := (mantissa.reverse.dropWhile (· == '0'))
    let kept := match kept with
      | '.' :: rest => rest
      | rest => rest
    kept.reverse ++ exponent
  else s

/-- A fraction in the shorter of both forms. -/
def Fraction.general (f : Fraction) (precision : Nat) (point : Bool) : List Char :=
  let p := if precision == 0 then 1 else precision
  let (e, _) := f.scientificParts (p - 1)
  let s := if e ≥ -4 && e < Int.ofNat p then f.fixed (Int.ofNat p - 1 - e).toNat point
    else f.scientific (p - 1) point
  if point then s else trimPlaces s

/-! ## Directives -/

/-- A directive of a format: flags, width, precision and letter. -/
structure Directive where
  flags : List Char
  width : Nat
  precision : Option Nat
  letter : Char

/-- Whether a directive has a flag. -/
def Directive.has (f : Directive) (c : Char) : Bool :=
  f.flags.contains c

/-- A text in its field. -/
def Directive.pad (f : Directive) (s : List UInt8) : List UInt8 :=
  let fill := List.replicate (f.width - s.length) 32
  if f.has '-' then s ++ fill else fill ++ s

/-- A number with its sign in its field. -/
def Directive.padNumber (f : Directive) (zeros : Bool) (sign digits : List Char) : List UInt8 :=
  let size := sign.length + digits.length
  if zeros && f.has '0' && !f.has '-' then
    bytesOf (sign ++ List.replicate (f.width - size) '0' ++ digits)
  else f.pad (bytesOf (sign ++ digits))

/-- The sign of a number. -/
def Directive.sign (f : Directive) (isNegative : Bool) : List Char :=
  if isNegative then ['-'] else if f.has '+' then ['+'] else if f.has ' ' then [' '] else []

/-- What is wrong with an argument of a print. -/
inductive PrintFault where
  /-- Nothing in it is a number. -/
  | noNumber (s : List Char)
  /-- Something after the number. -/
  | halfNumber (s : List Char)
  | badOctal (s : List Char)
  | outOfRange (s : List Char)
  /-- The format ends within a directive. -/
  | unfinished (s : List Char)
  | directive (s : List Char) (letter : Char)

/-- The wording of a fault. -/
def PrintFault.message (d : Dialect) : PrintFault → String
  | .noNumber s =>
    String.ofList s ++ (if d == .bash then ": invalid number" else ": expected numeric value")
  | .halfNumber s =>
    String.ofList s ++ (if d == .bash then ": invalid number" else ": not completely converted")
  | .badOctal s =>
    String.ofList s ++ (if d == .bash then ": invalid octal number" else ": not completely converted")
  | .outOfRange s =>
    (if d == .bash then "warning: " else "") ++ String.ofList s ++ ": Numerical result out of range"
  | .unfinished s =>
    if d == .bash then "`" ++ String.ofList s ++ "': missing format character"
    else "missing format character"
  | .directive s c =>
    if d == .bash then "`" ++ c.toString ++ "': invalid format character"
    else String.ofList s ++ ": invalid directive"

/-- Whether a fault counts as a failure. -/
def PrintFault.fails (d : Dialect) : PrintFault → Bool
  | .outOfRange _ => d == .plain
  | _ => true

/-- The integer of an argument, and what is wrong with it. -/
def integerArgument (s : List Char) : Int × Option PrintFault :=
  match s with
  | '\'' :: rest => (Int.ofNat ((rest.head?.map Char.toNat).getD 0), none)
  | '"' :: rest => (Int.ofNat ((rest.head?.map Char.toNat).getD 0), none)
  | [] => (0, none)
  | _ =>
    let body := s.dropWhile Cursor.isBlank
    let (isNegative, body) := match body with
      | '-' :: rest => (true, rest)
      | '+' :: rest => (false, rest)
      | _ => (false, body)
    let (radix, digits) : Nat × List Char := match body with
      | '0' :: c :: rest =>
        if (c == 'x' || c == 'X') && (takeNumber 16 1 rest).isSome then (16, rest) else (8, body)
      | _ => (10, body)
    match takeNumber radix digits.length digits with
    | none => (0, some (.noNumber s))
    | some (n, rest) =>
      let value : Int := if isNegative then -(Int.ofNat n) else Int.ofNat n
      if !rest.isEmpty then
        let isOctal : Bool := radix == 8 && (rest.head?.map Char.isDigit).getD false
        (value, some (if isOctal then .badOctal s else .halfNumber s))
      else if value > greatestInteger then (greatestInteger, some (.outOfRange s))
      else if value < leastInteger then (leastInteger, some (.outOfRange s))
      else (value, none)

/-- What a print has done: what it wrote in order, which arguments are left
    and whether to stop. -/
structure Printed where
  /-- Bytes and faults, the newest first. -/
  pieces : List (List UInt8 ⊕ PrintFault)
  rest : List (List Char)
  stop : Bool

namespace Printed

/-- Adds bytes. -/
def put (p : Printed) (bytes : List UInt8) : Printed :=
  { p with pieces := .inl bytes :: p.pieces }

/-- Adds a fault. -/
def fault (p : Printed) (f : PrintFault) : Printed :=
  { p with pieces := .inr f :: p.pieces }

/-- The next argument. -/
def next (p : Printed) : List Char × Printed :=
  (p.rest.headD [], { p with rest := p.rest.drop 1 })

end Printed

/-- Prints an integer. -/
def printInteger (f : Directive) (p : Printed) : Printed :=
  let (arg, p) := p.next
  let (n, wrong) := integerArgument arg
  let p := match wrong with
    | some w => p.fault w
    | none => p
  let isSigned := f.letter == 'd' || f.letter == 'i'
  let size := if isSigned || n ≥ 0 then n.natAbs else (n + 18446744073709551616).toNat
  let radix := if f.letter == 'x' || f.letter == 'X' then 16 else if f.letter == 'o' then 8 else 10
  let digits := Nat.toDigits radix size
  let digits := List.replicate ((f.precision.getD 0) - digits.length) '0' ++ digits
  let lead := if !f.has '#' || size == 0 then []
    else if radix == 16 then ['0', 'x']
    else if radix == 8 then ['0']
    else []
  let upper := fun (s : List Char) => if f.letter == 'X' then s.map Char.toUpper else s
  let sign := if isSigned then f.sign (n < 0) else []
  p.put (f.padNumber f.precision.isNone (sign ++ upper lead) (upper digits))

/-- Prints a fraction. -/
def printFraction (d : Dialect) (f : Directive) (p : Printed) : Printed :=
  let (arg, p) := p.next
  let (isNegative, value, p) : Bool × Fraction × Printed := match arg with
    | [] => (false, ⟨0, 1⟩, p)
    | _ =>
      match fraction? arg with
      | some (isNegative, value, []) => (isNegative, value, p)
      | some (isNegative, value, _) => (isNegative, value, p.fault (.halfNumber arg))
      | none => (false, ⟨0, 1⟩, p.fault (.noNumber arg))
  let value := value.toBinary (significant d)
  let precision := f.precision.getD 6
  let body := match f.letter.toLower with
    | 'f' => value.fixed precision (f.has '#')
    | 'e' => value.scientific precision (f.has '#')
    | _ => value.general precision (f.has '#')
  let body := if f.letter.isUpper then body.map Char.toUpper else body
  p.put (f.padNumber true (f.sign isNegative) body)

/-- Prints one directive; `source` is how it is written. -/
def printDirective (d : Dialect) (source : List Char) (f : Directive) (p : Printed) : Printed :=
  let short (bytes : List UInt8) : List UInt8 := match f.precision with
    | some n => bytes.take n
    | none => bytes
  let c := f.letter
  if c == 's' then
    let (arg, p) := p.next
    p.put (f.pad (short (bytesOf arg)))
  else if c == 'b' then
    let (arg, p) := p.next
    let (bytes, stop) := unescape d .argument (arg.length + 1) arg
    { p.put (f.pad (short bytes)) with stop := stop }
  else if (c == 'q' || c == 'Q') && d == .bash then
    let (arg, p) := p.next
    p.put (f.pad (bytesOf (escaped arg)))
  else if c == 'c' then
    let (arg, p) := p.next
    p.put (f.pad (if arg.isEmpty then [0] else bytesOf (arg.take 1)))
  else if "diouxX".toList.contains c then printInteger f p
  else if "feEgGF".toList.contains c then printFraction d f p
  else { p.fault (.directive source c) with stop := true }

/-- A number in a directive, which a star takes from the arguments. -/
def directiveNumber (s : List Char) (p : Printed) : Option Int × List Char × Printed :=
  match s with
  | '*' :: rest =>
    let (arg, p) := p.next
    (some (integerArgument arg).1, rest, p)
  | _ =>
    let (digits, rest) := s.span Char.isDigit
    ((Text.digits? 10 digits).map Int.ofNat, rest, p)

/-- Reads and prints a directive after its percent sign. -/
def directive (d : Dialect) (s : List Char) (p : Printed) : Printed × List Char :=
  let (flags, rest) := s.span fun c => c == '-' || c == '0' || c == '+' || c == ' ' || c == '#'
  let (width, rest, p) := directiveNumber rest p
  let (precision, rest, p) := match rest with
    | '.' :: rest =>
      let (n, rest, p) := directiveNumber rest p
      (some (n.getD 0), rest, p)
    | _ => (none, rest, p)
  let rest := if d == .bash then rest.dropWhile fun c => "hjlLtz".toList.contains c else rest
  let source := '%' :: s.take (s.length - rest.length)
  match rest with
  | [] => ({ p.fault (.unfinished source) with stop := true }, [])
  | c :: rest =>
    let width := width.getD 0
    let flags := if width < 0 then '-' :: flags else flags
    let precision := precision.bind fun n => if n < 0 then none else some n.toNat
    (printDirective d (source ++ [c]) ⟨flags, width.natAbs, precision, c⟩ p, rest)

/-- Prints a format once. -/
def printOnce (d : Dialect) : Nat → List Char → Printed → Printed
  | 0, _, p => p
  | _, [], p => p
  | fuel + 1, '%' :: '%' :: rest, p => printOnce d fuel rest (p.put [37])
  | fuel + 1, '%' :: rest, p =>
    let (p, rest) := directive d rest p
    if p.stop then p else printOnce d fuel rest p
  | fuel + 1, s, p =>
    let text := s.takeWhile (· ≠ '%')
    let (bytes, _) := unescape d .format (text.length + 1) text
    printOnce d fuel (s.drop text.length) (p.put bytes)

/-- Prints a format as often as it takes to use up the arguments. -/
def printAll (d : Dialect) (format : List Char) : Nat → Printed → Printed
  | 0, p => p
  | fuel + 1, p =>
    let q := printOnce d (format.length + 1) format p
    if q.stop || q.rest.isEmpty || q.rest.length == p.rest.length then q
    else printAll d format fuel q

/-- What a print writes, in order. Before a complaint comes what is a whole
    line already, or nothing in the plain shell. -/
def settled (d : Dialect) : List UInt8 → List (List UInt8 ⊕ PrintFault) →
    List (List UInt8 ⊕ PrintFault)
  | kept, [] => [.inl kept]
  | kept, .inl bytes :: rest => settled d (kept ++ bytes) rest
  | kept, .inr f :: rest =>
    let tail := (kept.reverse.takeWhile (· != 10)).reverse
    let lines := kept.take (kept.length - tail.length)
    if d == .bash then .inl lines :: .inr f :: settled d tail rest
    else .inr f :: settled d kept rest

/-- What a print writes, in order, and the number it ends with. -/
def printf (d : Dialect) (format : List Char) (args : List (List Char)) :
    List (List UInt8 ⊕ PrintFault) × Nat :=
  let p := printAll d format (args.length + 1) ⟨[], args, false⟩
  let pieces := p.pieces.reverse
  let faults := pieces.filterMap fun piece => match piece with
    | .inr f => some f
    | .inl _ => none
  let aborts := faults.any fun f => match f with
    | .unfinished _ => true
    | .directive _ _ => true
    | _ => false
  let code := if aborts && d == .plain then 2 else if faults.any (·.fails d) then 1 else 0
  (settled d [] pieces, code)

end CompilerRemarks.Shell
