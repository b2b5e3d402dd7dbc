/-
  CompilerRemarks.Shell.Expand

  Expansion of words: parameters, the output of scripts, values of
  expressions, fields, braces and names of files.
-/
import CompilerRemarks.Shell.Brace
import CompilerRemarks.Shell.Calculate
import CompilerRemarks.Shell.Glob
import CompilerRemarks.Shell.Quote

namespace CompilerRemarks.Shell

/-! ## Fields -/

/-- The fields of a word as they grow: finished ones, and the one being built
    if it was started. -/
structure Fields where
  finished : List (List Marked)
  current : Option (List Marked)
  /-- Whether the last field was ended by blanks, so that one other separator
      belongs to them. -/
  bySpace : Bool

namespace Fields

/-- No fields. -/
def none : Fields := ⟨[], .none, false⟩

/-- Adds characters to the current field. -/
def add (f : Fields) (s : List Marked) : Fields :=
  { f with current := some (f.current.getD [] ++ s), bySpace := false }

/-- Ends the current field. -/
def cut (f : Fields) : Fields :=
  ⟨f.finished ++ f.current.toList, .none, false⟩

/-- Adds a character of text in which separators end fields. -/
def addChar (separators : List Char) (f : Fields) (c : Char) : Fields :=
  if !separators.contains c then f.add [(c, false)]
  else if isGap c || c == '\n' then
    if f.current.isSome then { f.cut with bySpace := true } else f
  else if f.current.isSome then f.cut
  else if f.bySpace then { f with bySpace := false }
  else { f with finished := f.finished ++ [[]] }

/-- Adds text in which separators end fields. -/
def addSplit (separators : List Char) (f : Fields) (s : List Char) : Fields :=
  s.foldl (addChar separators) f

/-- Adds several texts, each a field of its own but for the ends. -/
def addEach (f : Fields) (texts : List (List Char)) : Fields :=
  match texts with
  | [] => f
  | first :: rest =>
    rest.foldl (fun f s => f.cut.add (s.map (·, true))) (f.add (first.map (·, true)))

/-- Adds several texts, each in fields of its own. -/
def addEachSplit (separators : List Char) (f : Fields) (texts : List (List Char)) : Fields :=
  match texts with
  | [] => f
  | first :: rest =>
    rest.foldl (fun f s => f.cut.addSplit separators s) (f.addSplit separators first)

/-- The fields of a whole word. -/
def all (f : Fields) : List (List Marked) :=
  f.cut.finished

end Fields

/-- The separators of fields. -/
def Machine.separators (m : Machine) : List Char :=
  (m.text? "IFS".toList).getD [' ', '\t', '\n']

/-- What joins the arguments of a script. -/
def Machine.joint (m : Machine) : List Char :=
  match m.text? "IFS".toList with
  | some s => s.take 1
  | none => [' ']

/-- Texts with something between them. -/
def joinWith (between : List Char) : List (List Char) → List Char
  | [] => []
  | [s] => s
  | s :: rest => s ++ between ++ joinWith between rest

/-! ## Values -/

/-- What a reference stands for. -/
inductive Referent where
  | single (s : Option (List Char))
  /-- Several texts with their subscripts, one text if `joined`. -/
  | several (items : List (List Char × List Char)) (joined : Bool)

/-- What an expansion yields. -/
inductive Yield where
  | text (s : List Char)
  | texts (items : List (List Char)) (joined : Bool)

/-- What an expansion needs of the shell that runs it. -/
structure Runner where
  /-- The output of a script. -/
  capture : List Char → Act (List Char)
  /-- The path of a channel to a script. -/
  channel : Bool → List Char → Act (List Char)

/-- How text goes into fields. -/
structure Style where
  /-- Whether the values of expansions are split. -/
  splits : Bool
  /-- Whether plain text is split too, since it comes from an expansion. -/
  isValue : Bool

/-- The arguments of a script with their numbers. -/
def numberedFrom (n : Nat) (texts : List (List Char)) : List (List Char × List Char) :=
  (texts.zipIdx n).map fun (s, k) => (Nat.toDigits 10 k, s)

/-- Ends the shell because a parameter has no value. -/
def failUnset (message : String) : Act Unit := do
  let m ← get
  complain message
  leave (.exit (.code (if !m.isBash then 2 else if m.isInline then 127 else 1)))

/-- A name of a parameter as a complaint shows it. -/
def parameterName (d : Dialect) (ref : Reference) : String :=
  let hasSign := !ref.inBraces && !isName ref.name && d == .bash
  let name := String.ofList (if hasSign then '$' :: ref.name else ref.name)
  match ref.subscript with
  | some (.at source) => name ++ "[" ++ String.ofList source ++ "]"
  | some (.all true) => name ++ "[*]"
  | some (.all false) => name ++ "[@]"
  | none => name

/-- A part of a text from an offset on, with a length or up to an end before
    the last; `none` if its end would lie before its start. -/
def sliceText (offset : Int) (length : Option Int) (s : List Char) : Option (List Char) :=
  let size := Int.ofNat s.length
  let start := if offset < 0 then size + offset else offset
  if start < 0 || start > size then some []
  else
    let tail := s.drop start.toNat
    match length with
    | none => some tail
    | some n =>
      if n ≥ 0 then some (tail.take n.toNat)
      else if size + n < start then none
      else some (tail.take (size + n - start).toNat)

/-- A part of several texts from an offset on. -/
def sliceTexts (offset : Int) (length : Option Int) (items : List (List Char × List Char)) :
    List (List Char × List Char) :=
  let number := fun (item : List Char × List Char) => Int.ofNat ((Text.digits? 10 item.1).getD 0)
  let size : Int := (items.getLast?.map fun item => number item + 1).getD 0
  let start := if offset < 0 then size + offset else offset
  if start < 0 then []
  else
    let tail := items.filter fun item => number item ≥ start
    match length with
    | none => tail
    | some n => tail.take n.toNat

/-- A replacement in which `&` stands for what was matched. -/
def filledIn (text : List Marked) (found : List Char) : List Char :=
  text.flatMap fun (c, quoted) => if c == '&' && !quoted then found else [c]

/-- The change of letters of a text. -/
def recaseText (upper every : Bool) (s : List Char) : List Char :=
  let change := fun (c : Char) => if upper then c.toUpper else c.toLower
  if every then s.map change
  else
    match s with
    | c :: rest => change c :: rest
    | [] => []

/-! ## Tildes -/

/-- The directory that a tilde with a name stands for. -/
def Machine.home? (m : Machine) (name : List Char) : Option (List Char) :=
  match String.ofList name with
  | "" => some ((m.text? "HOME".toList).getD "/root".toList)
  | "root" => some "/root".toList
  | "+" => if m.isBash then some m.directory else none
  | "-" => if m.isBash then m.text? "OLDPWD".toList else none
  | _ => none

/-- A word with a tilde at its start expanded. -/
def Machine.withHome (m : Machine) (w : Word) : Word :=
  match w with
  | .text ('~' :: s) false :: rest =>
    let (name, tail) := s.span (· ≠ '/')
    if tail.isEmpty && !rest.isEmpty then w
    else
      match m.home? name with
      | some home =>
        .text home true :: (if tail.isEmpty then [] else [.text tail false]) ++ rest
      | none => w
  | _ => w

/-! ## Expansion -/

/-- Adds what an expansion yields to the fields of a word. -/
def Machine.addYield (m : Machine) (style : Style) (quoted : Bool) (f : Fields) (y : Yield) :
    Fields :=
  let splits := style.splits
  match y with
  | .text s =>
    if quoted || !splits then f.add (s.map (·, quoted)) else f.addSplit m.separators s
  | .texts items joined =>
    if quoted then
      if joined then f.add ((joinWith m.joint items).map (·, true))
      else if splits then f.addEach items
      else f.add ((joinWith [' '] items).map (·, true))
    else if splits then f.addEachSplit m.separators items
    else f.add ((joinWith (if joined then m.joint else [' ']) items).map (·, false))

/-- The source of a parameter expansion in braces. -/
def bracedSource (source : List Char) : String :=
  "$\x7b" ++ String.ofList source ++ "\x7d"

mutual

/-- Adds the parts of a word to its fields. -/
def addParts (r : Runner) : Nat → Style → Fields → List Part → Act Fields
  | 0, _, f, _ => pure f
  | _, _, f, [] => pure f
  | fuel + 1, style, f, part :: rest => do
    let f ← match part with
      | .text s quoted =>
        if quoted || !style.isValue || !style.splits then pure (f.add (s.map (·, quoted)))
        else pure (f.addSplit (← get).separators s)
      | .parameter ref change quoted => addParameter r fuel style quoted f ref change
      | .capture source quoted =>
        let s ← r.capture source
        pure ((← get).addYield style quoted f (.text s))
      | .arithmetic source quoted =>
        match ← calculateOrDiscard "" (← sourceText r fuel .operand source) with
        | some n => pure ((← get).addYield style quoted f (.text (integerText n)))
        | none => pure f
      | .channel outward source =>
        let path ← r.channel outward source
        pure (f.add (path.map (·, true)))
      | .senseless source =>
        complain (match (← get).dialect with
          | .bash => bracedSource source ++ ": bad substitution"
          | .plain => "Bad substitution")
        discard
        pure f
    if ← goesOn then addParts r fuel style f rest else return f

/-- The text of a source in which only expansions count. -/
def sourceText (r : Runner) : Nat → TextEnd → List Char → Act (List Char)
  | 0, _, _ => pure []
  | fuel + 1, ends, source => do
    match textParts (← get).dialect ends source with
    | .ok parts =>
      let f ← addParts r fuel ⟨false, false⟩ .none parts
      return (f.all.flatten).map (·.1)
    | .error _ => return source

/-- The characters of a source that is a word of its own, not split. -/
def operandMarks (r : Runner) : Nat → List Char → Act (List Marked)
  | 0, _ => pure []
  | fuel + 1, source => do
    let m ← get
    match wholeWord m.dialect source with
    | .ok parts =>
      let f ← addParts r fuel ⟨false, false⟩ .none (m.withHome parts)
      return f.all.flatten
    | .error _ => return unmarked source

/-- Adds the text that stands for the value of a parameter. -/
def addOperand (r : Runner) : Nat → Style → Bool → Fields → List Char → Act Fields
  | 0, _, _, f, _ => pure f
  | fuel + 1, style, quoted, f, source => do
    let m ← get
    let parts := if quoted then textParts m.dialect .operand source
      else (wholeWord m.dialect source).map m.withHome
    match parts with
    | .ok parts =>
      if parts.isEmpty then return f
      else if quoted && source.isEmpty then return f.add []
      else addParts r fuel { style with isValue := true } f parts
    | .error _ => return f

/-- What a reference stands for. -/
def referent (r : Runner) : Nat → Reference → Act Referent
  | 0, _ => pure (.single none)
  | fuel + 1, ref => do
    let m ← get
    if ref.indirect then
      match m.text? ref.name with
      | none =>
        complain (String.ofList ref.name ++ ": invalid indirect expansion")
        discard
        return .single none
      | some name =>
        match reference? m.dialect name with
        | some (inner, []) => referent r fuel inner
        | _ =>
          complain (String.ofList name ++ ": invalid variable name")
          discard
          return .single none
    else
      match ref.name, ref.subscript with
      | ['@'], _ => return .several (numberedFrom 1 m.arguments) false
      | ['*'], _ => return .several (numberedFrom 1 m.arguments) true
      | name, none => return .single (match name with
        | ['-'] => some m.optionLetters
        | name => m.text? name)
      | name, some (.all joined) =>
        return .several (((m.value? name).map Value.elements).getD []) joined
      | name, some (.at source) =>
        let inside ← sourceText r fuel .operand source
        match m.value? name with
        | some (.keyed items) => return .single (items.lookup inside)
        | value =>
          match ← calculateSubscript "" inside with
          | none => return .single none
          | some n =>
            return .single ((elementNumber? value n).bind fun k => match value with
              | some (.listed items) => items.lookup k
              | some (.text s) => if k == 0 then some s else none
              | _ => none)

/-- Adds the value of a parameter to the fields of a word. -/
def addParameter (r : Runner) : Nat → Style → Bool → Fields → Reference → Change → Act Fields
  | 0, _, _, f, _, _ => pure f
  | fuel + 1, style, quoted, f, ref, change => do
    let found ← referent r fuel ref
    let m ← get
    if m.leaving.isSome then return f
    else
      let isUnset : Bool := match found with
        | .single s => s.isNone
        | .several items _ => items.isEmpty
      let isEmpty : Bool := match found with
        | .single s => (s.getD []).isEmpty
        | .several items _ => items.all (·.2.isEmpty) && items.length ≤ 1
      let asIs : Yield := match found with
        | .single s => .text (s.getD [])
        | .several items joined => .texts (items.map (·.2)) joined
      let give (y : Yield) : Act Fields := return m.addYield style quoted f y
      let lacks (emptyToo : Bool) : Bool := isUnset || (emptyToo && isEmpty)
      let tolerates : Bool := match change with
        | .orElse .. => true
        | .ifSet .. => true
        | .orSet .. => true
        | .orFail .. => true
        | .keys => true
        | _ => false
      let isList : Bool := match found with
        | .several .. => true
        | _ => false
      if isUnset && !isList && !tolerates && m.has "nounset" then
        failUnset (parameterName m.dialect ref ++
          (if m.isBash then ": unbound variable" else ": parameter not set"))
        return f
      else
        match change with
        | .none => give asIs
        | .size =>
          match found with
          | .single s => give (.text (Nat.toDigits 10 (s.getD []).length))
          | .several items _ => give (.text (Nat.toDigits 10 items.length))
        | .keys =>
          match found with
          | .several items joined => give (.texts (items.map (·.1)) joined)
          | .single _ => give (.text [])
        | .orElse emptyToo text =>
          if lacks emptyToo then addOperand r fuel style quoted f text else give asIs
        | .ifSet emptyToo text =>
          if lacks emptyToo then (if quoted && !isList then return f.add [] else return f)
          else addOperand r fuel style quoted f text
        | .orSet emptyToo text =>
          if !lacks emptyToo then give asIs
          else if !isName ref.name then
            complain (String.ofList ('$' :: ref.name) ++ ": cannot assign in this way")
            discard
            return f
          else
            let value := (← operandMarks r fuel text).map (·.1)
            let subscript ← match ref.subscript with
              | some (.at source) => pure (some (← sourceText r fuel .operand source))
              | _ => pure none
            let _ ← assignText "" ref.name subscript false value
            return (← get).addYield style quoted f (.text value)
        | .orFail emptyToo text =>
          if !lacks emptyToo then give asIs
          else
            let said := (← operandMarks r fuel text).map (·.1)
            let said := if !text.isEmpty then String.ofList said
              else if !emptyToo then "parameter not set"
              else if m.isBash then "parameter null or not set"
              else "parameter not set or null"
            failUnset (parameterName .plain ref ++ ": " ++ said)
            return f
        | .slice offset length =>
          let title := parameterName .plain ref ++ ": "
          let start ← calculateOrDiscard title (← sourceText r fuel .operand offset)
          let size ← match length with
            | some source =>
              calculateOrDiscard title (← sourceText r fuel .operand source)
            | none => pure none
          if !(← goesOn) then return f
          else
            match found with
            | .single s =>
              match sliceText (start.getD 0) size (s.getD []) with
              | some t => give (.text t)
              | none =>
                complain (String.ofList (length.getD []) ++ ": substring expression < 0")
                discard
                return f
            | .several items joined =>
              let items := if ref.name == ['@'] || ref.name == ['*'] then
                  (['0'], m.name) :: items
                else items
              give (.texts ((sliceTexts (start.getD 0) size items).map (·.2)) joined)
        | .requote =>
          match found with
          | .single none => return f
          | _ => give (match asIs with
            | .text s => .text (reusable s)
            | .texts items joined => .texts (items.map reusable) joined)
        | change =>
          let edit ← editOf r fuel change
          give (match asIs with
            | .text s => .text (edit s)
            | .texts items joined => .texts (items.map edit) joined)

/-- What a change makes of each text. -/
def editOf (r : Runner) : Nat → Change → Act (List Char → List Char)
  | 0, _ => pure id
  | fuel + 1, change => do
    let extended := (← get).allows "extglob"
    match change with
    | .dropStart longest source =>
      let p := atomsOf extended (← operandMarks r fuel source)
      return dropMatch longest p
    | .dropEnd longest source =>
      let p := atomsOf extended (← operandMarks r fuel source)
      return dropMatchEnd longest p
    | .replace extent source text =>
      let marks ← operandMarks r fuel source
      let by_ ← operandMarks r fuel text
      if marks.isEmpty then return id
      else return replaceIn extent (atomsOf extended marks) (filledIn by_)
    | .recase upper every => return recaseText upper every
    | _ => return id

end

/-- How deep expansions may be nested. -/
def expansionDepth : Nat := 10000

/-! ## Words -/

/-- The characters of a word that is not split. -/
def expandMarks (r : Runner) (w : Word) : Act (List Marked) := do
  let f ← addParts r expansionDepth ⟨false, false⟩ .none ((← get).withHome w)
  return f.all.flatten

/-- The text of a word that is not split. -/
def expandText (r : Runner) (w : Word) : Act (List Char) := do
  return (← expandMarks r w).map (·.1)

/-- The text of words of a document or subscript. -/
def expandSource (r : Runner) (source : List Char) : Act (List Char) :=
  sourceText r expansionDepth .operand source

/-- The texts that one word becomes. -/
def expandWord (r : Runner) (w : Word) : Act (List (List Char)) := do
  let f ← addParts r expansionDepth ⟨true, false⟩ .none ((← get).withHome w)
  let m ← get
  return f.all.flatMap m.globbed

/-- The words that braces make of some. -/
def Machine.braced (m : Machine) (words : List Word) : List Word :=
  if m.isBash && m.has "braceexpand" then words.flatMap braceWords else words

/-- The texts that some words become. -/
def expandWords (r : Runner) (words : List Word) : Act (List (List Char)) := do
  let mut out : List (List Char) := []
  for w in (← get).braced words do
    if ← goesOn then
      out := out ++ (← expandWord r w)
  return out

end CompilerRemarks.Shell
