/-
  CompilerRemarks.Yaml.Node

  The nodes of a YAML stream, built from its tokens: scalars, sequences,
  mappings and aliases, with their anchors and tags.
-/
import CompilerRemarks.Yaml.Token.Basic

namespace CompilerRemarks.Yaml

/-- The anchor and the tag of a node; `ρ` is what anchors are called by. -/
structure Properties (ρ : Type) where
  anchor : Option ρ
  tag : Option (List UInt8)
  deriving DecidableEq, Repr

/-- No anchor and no tag. -/
def Properties.none {ρ : Type} : Properties ρ := ⟨.none, .none⟩

/-- A node of a document. -/
inductive Node (ρ : Type) where
  | scalar (props : Properties ρ) (text : List Char) (plain : Bool)
  | sequence (props : Properties ρ) (items : List (Node ρ))
  | mapping (props : Properties ρ) (entries : List (Node ρ × Node ρ))
  | alias (anchor : ρ)
  deriving Repr

/-- A node as it is written, with anchors by name. -/
abbrev NamedNode := Node (List Char)

namespace Node

/-- The node that stands where nothing is written. -/
def empty {ρ : Type} : Node ρ := .scalar .none [] true

/-! ## Tags -/

/-- What each tag handle stands for. -/
abbrev Handles := List (List Char × List UInt8)

/-- The handles that every document has. -/
def standardHandles : Handles :=
  [(['!'], [0x21]), (['!', '!'], Text.Utf8.encode "tag:yaml.org,2002:".toList)]

/-- The tag of a handle and a suffix; without a handle the suffix is the tag. -/
def resolveTag? (handles : Handles) (handle : List Char) (suffix : List UInt8) :
    Option (List UInt8) :=
  if handle.isEmpty then some suffix
  else (handles.lookup handle).map (· ++ suffix)

/-- Reads an anchor and a tag, in either order. -/
def properties? (handles : Handles) : List Token → Option (Properties (List Char) × List Token)
  | .anchor a :: .tag h s :: rest => (resolveTag? handles h s).map fun t => (⟨some a, some t⟩, rest)
  | .anchor a :: rest => some (⟨some a, .none⟩, rest)
  | .tag h s :: .anchor a :: rest => (resolveTag? handles h s).map fun t => (⟨some a, some t⟩, rest)
  | .tag h s :: rest => (resolveTag? handles h s).map fun t => (⟨.none, some t⟩, rest)
  | rest => some (.none, rest)

/-! ## Where nothing is written -/

/-- Whether an item of a block sequence is missing. -/
def endsItem : List Token → Bool
  | .entry :: _ => true
  | .blockEnd :: _ => true
  | _ => false

/-- Whether a key or value of a block mapping is missing. -/
def endsPair : List Token → Bool
  | .key :: _ => true
  | .value :: _ => true
  | .blockEnd :: _ => true
  | _ => false

/-! ## Nodes -/

mutual

/-- Reads a node. Block collections are allowed if `block`; a sequence whose
    dashes stand at the column of the enclosing mapping if `level`. -/
def node? (handles : Handles) : Nat → Bool → Bool → List Token → Option (NamedNode × List Token)
  | 0, _, _, _ => .none
  | _ + 1, _, _, .alias name :: rest => some (.alias name, rest)
  | fuel + 1, block, level, tokens =>
    match properties? handles tokens with
    | .none => .none
    | some (props, rest) =>
      match rest with
      | .entry :: _ =>
        if level then
          (levelItems? handles fuel rest).map fun (items, rest) => (.sequence props items, rest)
        else if props == .none then .none
        else some (.scalar props [] true, rest)
      | .scalar text plain :: rest => some (.scalar props text plain, rest)
      | .flowSequence :: rest =>
        (flowItems? handles fuel true rest).map fun (items, rest) => (.sequence props items, rest)
      | .flowMapping :: rest =>
        (flowPairs? handles fuel true rest).map fun (pairs, rest) => (.mapping props pairs, rest)
      | .blockSequence :: inner =>
        if block then
          (items? handles fuel inner).map fun (items, rest) => (.sequence props items, rest)
        else if props == .none then .none
        else some (.scalar props [] true, rest)
      | .blockMapping :: inner =>
        if block then
          (pairs? handles fuel inner).map fun (pairs, rest) => (.mapping props pairs, rest)
        else if props == .none then .none
        else some (.scalar props [] true, rest)
      | _ => if props == .none then .none else some (.scalar props [] true, rest)

/-- Reads the items of a block sequence up to its end. -/
def items? (handles : Handles) : Nat → List Token → Option (List NamedNode × List Token)
  | 0, _ => .none
  | fuel + 1, .entry :: rest =>
    match if endsItem rest then some (empty, rest) else node? handles fuel true false rest with
    | .none => .none
    | some (item, rest) =>
      (items? handles fuel rest).map fun (items, rest) => (item :: items, rest)
  | _ + 1, .blockEnd :: rest => some ([], rest)
  | _ + 1, _ => .none

/-- Reads the items of a sequence at the column of the enclosing mapping; it
    ends where no dash follows. -/
def levelItems? (handles : Handles) : Nat → List Token → Option (List NamedNode × List Token)
  | 0, _ => .none
  | fuel + 1, .entry :: rest =>
    match if endsItem rest || endsPair rest then some (empty, rest)
      else node? handles fuel true false rest with
    | .none => .none
    | some (item, rest) =>
      (levelItems? handles fuel rest).map fun (items, rest) => (item :: items, rest)
  | _ + 1, rest => some ([], rest)

/-- Reads the pairs of a block mapping up to its end. -/
def pairs? (handles : Handles) : Nat → List Token → Option (List (NamedNode × NamedNode) × List Token)
  | 0, _ => .none
  | fuel + 1, .key :: rest =>
    match if endsPair rest then some (empty, rest) else node? handles fuel true true rest with
    | .none => .none
    | some (key, rest) =>
      match pairValue? handles fuel rest with
      | .none => .none
      | some (value, rest) =>
        (pairs? handles fuel rest).map fun (pairs, rest) => ((key, value) :: pairs, rest)
  | _ + 1, .blockEnd :: rest => some ([], rest)
  | _ + 1, _ => .none

/-- Reads the value of a pair of a block mapping, if one is written. -/
def pairValue? (handles : Handles) : Nat → List Token → Option (NamedNode × List Token)
  | 0, _ => .none
  | fuel + 1, .value :: rest =>
    if endsPair rest then some (empty, rest) else node? handles fuel true true rest
  | _ + 1, rest => some (empty, rest)

/-- Reads the items of a flow sequence up to its bracket; a key among them
    starts a mapping of one pair. -/
def flowItems? (handles : Handles) : Nat → Bool → List Token → Option (List NamedNode × List Token)
  | 0, _, _ => .none
  | _ + 1, _, .flowSequenceEnd :: rest => some ([], rest)
  | fuel + 1, first, tokens =>
    match if first then some tokens else afterSeparator? tokens with
    | .none => .none
    | some (.flowSequenceEnd :: rest) => some ([], rest)
    | some (.key :: rest) =>
      match flowPair? handles fuel rest with
      | .none => .none
      | some (pair, rest) =>
        (flowItems? handles fuel false rest).map
          fun (items, rest) => (.mapping .none [pair] :: items, rest)
    | some rest =>
      match node? handles fuel false false rest with
      | .none => .none
      | some (item, rest) =>
        (flowItems? handles fuel false rest).map fun (items, rest) => (item :: items, rest)

/-- Reads the pair after a key mark in a flow sequence. Where the key is
    missing, the token in its place is passed over. -/
def flowPair? (handles : Handles) : Nat → List Token → Option ((NamedNode × NamedNode) × List Token)
  | 0, _ => .none
  | fuel + 1, tokens =>
    let key? : Option (NamedNode × List Token) := match tokens with
      | .value :: rest => some (empty, rest)
      | .separator :: rest => some (empty, rest)
      | .flowSequenceEnd :: rest => some (empty, rest)
      | rest => node? handles fuel false false rest
    match key? with
    | .none => .none
    | some (key, .value :: rest) =>
      match rest with
      | .separator :: _ => some ((key, empty), rest)
      | .flowSequenceEnd :: _ => some ((key, empty), rest)
      | rest => (node? handles fuel false false rest).map fun (value, rest) => ((key, value), rest)
    | some (key, rest) => some ((key, empty), rest)

/-- Reads the pairs of a flow mapping up to its brace; a node without a key
    mark is a key without a value. -/
def flowPairs? (handles : Handles) :
    Nat → Bool → List Token → Option (List (NamedNode × NamedNode) × List Token)
  | 0, _, _ => .none
  | _ + 1, _, .flowMappingEnd :: rest => some ([], rest)
  | fuel + 1, first, tokens =>
    match if first then some tokens else afterSeparator? tokens with
    | .none => .none
    | some (.flowMappingEnd :: rest) => some ([], rest)
    | some (.key :: rest) =>
      match flowKey? handles fuel rest with
      | .none => .none
      | some (key, rest) =>
        match flowValue? handles fuel rest with
        | .none => .none
        | some (value, rest) =>
          (flowPairs? handles fuel false rest).map
            fun (pairs, rest) => ((key, value) :: pairs, rest)
    | some rest =>
      match node? handles fuel false false rest with
      | .none => .none
      | some (key, rest) =>
        (flowPairs? handles fuel false rest).map
          fun (pairs, rest) => ((key, empty) :: pairs, rest)

/-- Reads the key after a key mark in a flow mapping. -/
def flowKey? (handles : Handles) : Nat → List Token → Option (NamedNode × List Token)
  | 0, _ => .none
  | fuel + 1, rest =>
    match rest with
    | .value :: _ => some (empty, rest)
    | .separator :: _ => some (empty, rest)
    | .flowMappingEnd :: _ => some (empty, rest)
    | rest => node? handles fuel false false rest

/-- Reads the value of a pair of a flow mapping, if one is written. -/
def flowValue? (handles : Handles) : Nat → List Token → Option (NamedNode × List Token)
  | 0, _ => .none
  | fuel + 1, .value :: rest =>
    match rest with
    | .separator :: _ => some (empty, rest)
    | .flowMappingEnd :: _ => some (empty, rest)
    | rest => node? handles fuel false false rest
  | _ + 1, rest => some (empty, rest)

/-- Steps over the comma between two items of a flow collection. -/
def afterSeparator? : List Token → Option (List Token)
  | .separator :: rest => some rest
  | _ => .none

end

/-! ## Documents -/

/-- Reads the directives before a document. -/
def directives? : Bool → Handles → List Token → Option (Handles × List Token)
  | versioned, handles, .version major minor :: rest =>
    if versioned || major != 1 || (minor != 1 && minor != 2) then .none
    else directives? true handles rest
  | versioned, handles, .tagShorthand handle uri :: rest =>
    if (handles.lookup handle).isSome then .none
    else directives? versioned (handles ++ [(handle, uri)]) rest
  | _, handles, rest => some (handles ++ standardHandles, rest)

/-- Whether an explicit document has no content. -/
def endsDocument : List Token → Bool
  | [] => true
  | .version .. :: _ => true
  | .tagShorthand .. :: _ => true
  | .documentStart :: _ => true
  | .documentEnd :: _ => true
  | _ => false

/-- Reads a document that starts with directives or a marker. -/
def explicit? (tokens : List Token) : Option (NamedNode × List Token) :=
  match directives? false [] tokens with
  | some (handles, .documentStart :: rest) =>
    if endsDocument rest then some (empty, rest)
    else node? handles (4 * rest.length + 8) true false rest
  | _ => .none

/-- Puts a document in front of those after it. Where the tokens break off, a
    document is known to be over only by a token behind it. -/
def counting (isAll : Bool) (node : NamedNode) (rest : List Token) (later : Leading NamedNode) :
    Leading NamedNode :=
  if isAll || !rest.isEmpty then later.cons node else .broken

/-- Reads the documents after the first, each of which needs its marker, up to
    the first error. -/
def documents (isAll : Bool) : Nat → List Token → Leading NamedNode
  | 0, _ => .broken
  | fuel + 1, tokens =>
    match tokens.dropWhile (· == .documentEnd) with
    | [] => ⟨[], isAll⟩
    | rest =>
      match explicit? rest with
      | .none => .broken
      | some (node, rest) => counting isAll node rest (documents isAll fuel rest)

/-- The documents of a stream up to the first error. The first document may do
    without a marker. -/
def ofTokens (tokens : Leading Token) : Leading NamedNode :=
  let startsExplicit := match tokens.items with
    | .version .. :: _ => true
    | .tagShorthand .. :: _ => true
    | .documentStart :: _ => true
    | _ => false
  if tokens.items.isEmpty then ⟨[], tokens.isAll⟩
  else
    let first? := if startsExplicit then explicit? tokens.items
      else node? standardHandles (4 * tokens.items.length + 8) true false tokens.items
    match first? with
    | .none => .broken
    | some (node, rest) =>
      counting tokens.isAll node rest (documents tokens.isAll (rest.length + 1) rest)

end Node

end CompilerRemarks.Yaml
