/-
  CompilerRemarks.Yaml.Token.Scan

  From the characters of a stream to its tokens. Indentation opens and closes
  blocks. Whether a scalar is a key is known only at the colon after it, so
  the place of each possible key is remembered and the tokens before it are
  put in when the colon comes.
-/
import CompilerRemarks.Yaml.Token.Scalar
import CompilerRemarks.Yaml.Token.Property

namespace CompilerRemarks.Yaml

/-- A token that may turn out to be a key. -/
structure PossibleKey where
  /-- The number of tokens before it. -/
  number : Nat
  /-- Whether it stands where a block mapping needs a key. -/
  required : Bool
  index : Nat
  line : Nat
  column : Nat
  deriving Repr

/-- The state of scanning. -/
structure Scanner where
  cursor : Cursor
  /-- The tokens so far, the latest first. -/
  tokens : List Token
  /-- The column of the innermost block, `-1` outside every block. -/
  indent : Int
  /-- The columns of the enclosing blocks, the innermost first. -/
  outer : List Int
  /-- Whether a key may start here. -/
  keyAllowed : Bool
  /-- The possible key of each open flow collection, the innermost first. -/
  flowKeys : List (Option PossibleKey)
  /-- The possible key outside flow collections. -/
  blockKey : Option PossibleKey
  deriving Repr

namespace Scanner

/-! ## Tokens -/

/-- Whether the scanner is inside a flow collection. -/
def inFlow (s : Scanner) : Bool :=
  !s.flowKeys.isEmpty

/-- Adds a token at the end. -/
def push (s : Scanner) (t : Token) : Scanner :=
  { s with tokens := t :: s.tokens }

/-- Puts a token before the one with this number. -/
def insertAt (s : Scanner) (number : Nat) (t : Token) : Scanner :=
  let later := s.tokens.length - number
  { s with tokens := s.tokens.take later ++ t :: s.tokens.drop later }

/-! ## Possible keys -/

/-- The possible key of the innermost collection. -/
def currentKey (s : Scanner) : Option PossibleKey :=
  match s.flowKeys with
  | key :: _ => key
  | [] => s.blockKey

/-- Sets the possible key of the innermost collection. -/
def setKey (s : Scanner) (key : Option PossibleKey) : Scanner :=
  match s.flowKeys with
  | _ :: rest => { s with flowKeys := key :: rest }
  | [] => { s with blockKey := key }

/-- Forgets the possible key; an error if a key is required there. -/
def dropKey? (s : Scanner) : Option Scanner :=
  match s.currentKey with
  | some key => if key.required then none else some (s.setKey none)
  | none => some s

/-- Remembers that the next token may be a key. -/
def saveKey? (s : Scanner) : Option Scanner :=
  if s.keyAllowed then
    let cur := s.cursor
    let key : PossibleKey :=
      ⟨s.tokens.length, !s.inFlow && s.indent == Int.ofNat cur.column, cur.index, cur.line,
        cur.column⟩
    s.dropKey?.map (·.setKey (some key))
  else some s

/-- A key must be on one line and start at most 1024 bytes before its colon. -/
def isStale (cur : Cursor) (key : PossibleKey) : Bool :=
  key.line < cur.line || key.index + 1024 < cur.index

/-- Forgets a possible key that has become stale; an error if it is required. -/
def refresh? (cur : Cursor) : Option PossibleKey → Option (Option PossibleKey)
  | some key =>
    if isStale cur key then (if key.required then none else some none) else some (some key)
  | none => some none

/-- Forgets every stale possible key. -/
def dropStale? (s : Scanner) : Option Scanner :=
  match refresh? s.cursor s.blockKey with
  | none => none
  | some blockKey =>
    (s.flowKeys.mapM (refresh? s.cursor)).map fun flowKeys => { s with blockKey, flowKeys }

/-! ## Indentation -/

/-- Opens a block at `column` if that is further right than the current one,
    with its token before the one with this number. -/
def openBlock (s : Scanner) (column : Nat) (number : Nat) (t : Token) : Scanner :=
  if !s.inFlow && s.indent < Int.ofNat column then
    { (s.insertAt number t) with indent := Int.ofNat column, outer := s.indent :: s.outer }
  else s

/-- Closes the blocks right of `column`; `blocks` bounds their number. -/
def closeFrom (column : Int) : List Int → Scanner → Scanner
  | [], s => s
  | enclosing :: outer, s =>
    if s.indent > column then
      closeFrom column outer { (s.push .blockEnd) with indent := enclosing, outer }
    else s

/-- Closes the blocks right of `column`; flow collections have no indentation. -/
def closeBlocks (s : Scanner) (column : Int) : Scanner :=
  if s.inFlow then s else closeFrom column s.outer s

/-! ## Between tokens -/

/-- Steps over blanks, comments and breaks. A byte order mark may start a line
    and takes up its first column. Where a key may start, a tab is no blank;
    outside flow collections a key may start on a new line. -/
def skipGaps : Nat → Scanner → Scanner
  | 0, s => s
  | fuel + 1, s =>
    let cur := s.cursor
    let cur := if cur.column == 0 && cur.isAt '\uFEFF' then cur.advance 1 else cur
    let tabs := s.inFlow || !s.keyAllowed
    let cur := (cur.skipWhile fun c => c == ' ' || (tabs && c == '\t')).skipComment
    match cur.rest with
    | c :: _ =>
      if isBreak c then
        skipGaps fuel
          { s with cursor := cur.readBreak.2, keyAllowed := s.keyAllowed || !s.inFlow }
      else { s with cursor := cur }
    | [] => { s with cursor := cur }

/-! ## One token -/

/-- Steps over `n` characters and adds a token. -/
def emit (s : Scanner) (n : Nat) (t : Token) : Scanner :=
  { (s.push t) with cursor := s.cursor.advance n }

/-- A document marker closes every block. -/
def documentMark? (s : Scanner) (t : Token) : Option Scanner :=
  (s.closeBlocks (-1)).dropKey?.map fun s => { s with keyAllowed := false }.emit 3 t

/-- A directive closes every block. -/
def directiveLine? (s : Scanner) : Option Scanner :=
  match (s.closeBlocks (-1)).dropKey? with
  | none => none
  | some s =>
    (directive? s.cursor).map fun (t, cursor) =>
      { (s.push t) with cursor, keyAllowed := false }

/-- An opening bracket, which may itself start a key. -/
def openFlow? (s : Scanner) (t : Token) : Option Scanner :=
  s.saveKey?.map fun s => { s with flowKeys := none :: s.flowKeys, keyAllowed := true }.emit 1 t

/-- A closing bracket. -/
def closeFlow? (s : Scanner) (t : Token) : Option Scanner :=
  s.dropKey?.map fun s => { s with flowKeys := s.flowKeys.drop 1, keyAllowed := false }.emit 1 t

/-- A comma. -/
def separator? (s : Scanner) : Option Scanner :=
  s.dropKey?.map fun s => { s with keyAllowed := true }.emit 1 .separator

/-- A dash, which opens a block sequence where a key may start. -/
def entry? (s : Scanner) : Option Scanner :=
  if !s.inFlow && !s.keyAllowed then none
  else
    let s := s.openBlock s.cursor.column s.tokens.length .blockSequence
    s.dropKey?.map fun s => { s with keyAllowed := true }.emit 1 .entry

/-- A question mark, which opens a block mapping where a key may start. -/
def complexKey? (s : Scanner) : Option Scanner :=
  if !s.inFlow && !s.keyAllowed then none
  else
    let s := s.openBlock s.cursor.column s.tokens.length .blockMapping
    s.dropKey?.map fun s => { s with keyAllowed := !s.inFlow }.emit 1 .key

/-- A colon: the possible key becomes one, or else the colon follows a
    complex key. -/
def value? (s : Scanner) : Option Scanner :=
  match s.currentKey with
  | some key =>
    let s := s.insertAt key.number .key
    let s := (s.openBlock key.column key.number .blockMapping).setKey none
    some ({ s with keyAllowed := false }.emit 1 .value)
  | none =>
    if !s.inFlow && !s.keyAllowed then none
    else
      let s := s.openBlock s.cursor.column s.tokens.length .blockMapping
      some ({ s with keyAllowed := !s.inFlow }.emit 1 .value)

/-- An anchor or alias. -/
def anchorOrAlias? (s : Scanner) (make : List Char → Token) : Option Scanner :=
  match s.saveKey? with
  | none => none
  | some s =>
    (anchorName? s.cursor).map fun (name, cursor) =>
      { (s.push (make name)) with cursor, keyAllowed := false }

/-- A tag. -/
def tag? (s : Scanner) : Option Scanner :=
  match s.saveKey? with
  | none => none
  | some s =>
    (tagToken? s.inFlow s.cursor).map fun (t, cursor) =>
      { (s.push t) with cursor, keyAllowed := false }

/-- A block scalar. -/
def block? (s : Scanner) (literal : Bool) : Option Scanner :=
  match s.dropKey? with
  | none => none
  | some s =>
    (blockScalar? literal s.indent s.cursor).map fun (text, cursor) =>
      { (s.push (.scalar text false)) with cursor, keyAllowed := true }

/-- A quoted scalar. -/
def quote? (s : Scanner) (single : Bool) : Option Scanner :=
  match s.saveKey? with
  | none => none
  | some s =>
    (quoted? single s.cursor).map fun (text, cursor) =>
      { (s.push (.scalar text false)) with cursor, keyAllowed := false }

/-- A plain scalar; a key may follow it on a new line. -/
def plain? (s : Scanner) : Option Scanner :=
  match s.saveKey? with
  | none => none
  | some s =>
    (plainScalar? s.inFlow (s.indent + 1).toNat s.cursor).map fun (text, broken, cursor) =>
      { (s.push (.scalar text true)) with cursor, keyAllowed := broken }

/-- Whether a plain scalar may start here. -/
def startsPlain (flow : Bool) : List Char → Bool
  | [] => false
  | c :: tail =>
    let blankNext := match tail with
      | d :: _ => isGap d
      | [] => false
    !(isGap c || isBreak c || "-?:,[]\x7b\x7d#&*!|>'\"%@\x60".toList.contains c) ||
      (c == '-' && !blankNext) ||
      (!flow && (c == '?' || c == ':') && !atGap tail)

/-- Reads the next token at a character that is no gap. -/
def token? (s : Scanner) (c : Char) (tail : List Char) : Option Scanner :=
  let flow := s.inFlow
  let lineStart := s.cursor.column == 0
  if lineStart && c == '%' then s.directiveLine?
  else if lineStart && c == '-' && atDocumentMark s.cursor.rest then s.documentMark? .documentStart
  else if lineStart && c == '.' && atDocumentMark s.cursor.rest then s.documentMark? .documentEnd
  else if c == '[' then s.openFlow? .flowSequence
  else if c == '\x7b' then s.openFlow? .flowMapping
  else if c == ']' then s.closeFlow? .flowSequenceEnd
  else if c == '\x7d' then s.closeFlow? .flowMappingEnd
  else if c == ',' then s.separator?
  else if c == '-' && atGap tail then s.entry?
  else if c == '?' && (flow || atGap tail) then s.complexKey?
  else if c == ':' && (flow || atGap tail) then s.value?
  else if c == '*' then s.anchorOrAlias? .alias
  else if c == '&' then s.anchorOrAlias? .anchor
  else if c == '!' then s.tag?
  else if c == '|' && !flow then s.block? true
  else if c == '>' && !flow then s.block? false
  else if c == '\'' then s.quote? true
  else if c == '"' then s.quote? false
  else if startsPlain flow s.cursor.rest then s.plain?
  else none

/-! ## The stream -/

/-- The tokens that can be handed out: a possible key holds back its own token
    and those after it, as its mark would come before them. -/
def ready (s : Scanner) : List Token :=
  let held := (s.blockKey :: s.flowKeys).filterMap fun key => key.filter (!isStale s.cursor ·)
  s.tokens.reverse.take (held.foldl (fun n key => min n key.number) s.tokens.length)

/-- Goes to where the next token starts. -/
def reach? (s : Scanner) : Option Scanner :=
  let s := skipGaps (s.cursor.rest.length + 1) s
  s.dropStale?.map fun s => s.closeBlocks (Int.ofNat s.cursor.column)

/-- At the end of the stream every block is closed. -/
def finish? (s : Scanner) : Option (List Token) :=
  (s.closeBlocks (-1)).dropKey?.map (·.tokens.reverse)

/-- Reads all tokens, or those that can be handed out before the first error. -/
def run : Nat → Scanner → Leading Token
  | 0, s => ⟨s.ready, false⟩
  | fuel + 1, s =>
    match s.reach? with
    | none => ⟨s.ready, false⟩
    | some there =>
      match there.cursor.rest with
      | [] =>
        match there.finish? with
        | none => ⟨s.ready, false⟩
        | some tokens => ⟨tokens, true⟩
      | c :: tail =>
        match there.token? c tail with
        | none => ⟨s.ready, false⟩
        | some next => run fuel next

end Scanner

/-- The tokens of a stream. Its characters are looked at before it is read. -/
def Token.scan (text : List Char) : Leading Token :=
  if text.all isAllowed then
    Scanner.run (text.length + 2) ⟨⟨text, 0, 0, 0⟩, [], -1, [], true, [], none⟩
  else .broken

end CompilerRemarks.Yaml
