/-
  CompilerRemarks.Yaml.Document

  From the nodes of a document to the value it stands for. Aliases are
  replaced by what they name, scalars resolved by their style and tag.
  A mapping with two equal keys, an alias without its anchor, nesting of more
  than 128 collections, or too many alias replacements have no value.
-/
import CompilerRemarks.Yaml.Node
import CompilerRemarks.Yaml.Scalar
import CompilerRemarks.Yaml.Token.Scan

namespace CompilerRemarks.Yaml

/-! ## Anchors by number -/

/-- The number of each anchor name met so far. -/
abbrev AnchorNames := List (List Char × Nat)

/-- Gives a name a number, which replaces the one it had. -/
def AnchorNames.set (name : List Char) (number : Nat) : AnchorNames → AnchorNames
  | [] => [(name, number)]
  | (n, k) :: rest => if n == name then (name, number) :: rest else (n, k) :: set name number rest

/-- Numbers an anchor by the count of names before it. A name that is anchored
    again adds none to the count, so the next new name shares its number. -/
def AnchorNames.anchor (names : AnchorNames) (props : Properties (List Char)) :
    Properties Nat × AnchorNames :=
  match props.anchor with
  | none => (⟨none, props.tag⟩, names)
  | some name => (⟨some names.length, props.tag⟩, names.set name names.length)

namespace Node

mutual

/-- Replaces anchor names by numbers, in the order of the text; `none` if an
    alias comes before its anchor. -/
def number? (names : AnchorNames) : NamedNode → Option (Node Nat × AnchorNames)
  | .scalar props text plain =>
    let (props, names) := names.anchor props
    some (.scalar props text plain, names)
  | .sequence props items =>
    let (props, names) := names.anchor props
    (numberItems? names items).map fun (items, names) => (.sequence props items, names)
  | .mapping props entries =>
    let (props, names) := names.anchor props
    (numberEntries? names entries).map fun (entries, names) => (.mapping props entries, names)
  | .alias name => (names.lookup name).map fun n => (.alias n, names)

/-- Replaces the anchor names of items. -/
def numberItems? (names : AnchorNames) : List NamedNode → Option (List (Node Nat) × AnchorNames)
  | [] => some ([], names)
  | item :: rest =>
    match number? names item with
    | none => none
    | some (item, names) =>
      (numberItems? names rest).map fun (rest, names) => (item :: rest, names)

/-- Replaces the anchor names of entries. -/
def numberEntries? (names : AnchorNames) :
    List (NamedNode × NamedNode) → Option (List (Node Nat × Node Nat) × AnchorNames)
  | [] => some ([], names)
  | (key, value) :: rest =>
    match number? names key with
    | none => none
    | some (key, names) =>
      match number? names value with
      | none => none
      | some (value, names) =>
        (numberEntries? names rest).map fun (rest, names) => ((key, value) :: rest, names)

end

mutual

/-- The anchored nodes of a tree, in the order of the text. -/
def anchored : Node Nat → List (Nat × Node Nat)
  | .scalar props text plain =>
    (props.anchor.map (·, .scalar props text plain)).toList
  | .sequence props items =>
    (props.anchor.map (·, .sequence props items)).toList ++ anchoredItems items
  | .mapping props entries =>
    (props.anchor.map (·, .mapping props entries)).toList ++ anchoredEntries entries
  | .alias _ => []

/-- The anchored nodes of items. -/
def anchoredItems : List (Node Nat) → List (Nat × Node Nat)
  | [] => []
  | item :: rest => anchored item ++ anchoredItems rest

/-- The anchored nodes of entries. -/
def anchoredEntries : List (Node Nat × Node Nat) → List (Nat × Node Nat)
  | [] => []
  | (key, value) :: rest => anchored key ++ anchored value ++ anchoredEntries rest

end

mutual

/-- How many events a reader of the text meets: one for a scalar or alias,
    a start and an end for a collection. -/
def events {ρ : Type} : Node ρ → Nat
  | .scalar .. => 1
  | .sequence _ items => 2 + eventsOfItems items
  | .mapping _ entries => 2 + eventsOfEntries entries
  | .alias _ => 1

/-- The events of items. -/
def eventsOfItems {ρ : Type} : List (Node ρ) → Nat
  | [] => 0
  | item :: rest => events item + eventsOfItems rest

/-- The events of entries. -/
def eventsOfEntries {ρ : Type} : List (Node ρ × Node ρ) → Nat
  | [] => 0
  | (key, value) :: rest => events key + events value + eventsOfEntries rest

end

end Node

/-! ## Values -/

/-- A computation that may fail and may replace only so many aliases. -/
abbrev Build (α : Type) := Nat → Option (α × Nat)

/-- Builds the values of a list of nodes, one after the other. -/
def Build.list {α β : Type} (f : α → Build β) : List α → Build (List β)
  | [], left => some ([], left)
  | x :: rest, left =>
    match f x left with
    | none => none
    | some (y, left) =>
      match Build.list f rest left with
      | none => none
      | some (ys, left) => some (y :: ys, left)

/-- Builds the entries of a mapping; `seen` are those before. A key that was
    seen before is an error. -/
def Build.entries {α : Type} (build : α → Build Value) :
    List (Value × Value) → List (α × α) → Build (List (Value × Value))
  | seen, [], left => some (seen, left)
  | seen, (k, v) :: rest, left =>
    match build k left with
    | none => none
    | some (key, left) =>
      if seen.any fun (other, _) => other.same key then none
      else
        match build v left with
        | none => none
        | some (value, left) => Build.entries build (seen ++ [(key, value)]) rest left

/-- An application's own tag: one that starts with `!`, without that mark
    unless it is all there is. -/
def ownTag? : Option (List UInt8) → Option String
  | some (0x21 :: rest) =>
    (Text.Utf8.decode? (if rest.isEmpty then [0x21] else rest)).map String.ofList
  | _ => none

/-- The value of a scalar under its tag: that of its text if the tag is an
    application's own, even one that is not well formed. -/
def scalarValue (tag : Option (List UInt8)) (text : List Char) (plain : Bool) : Option Value :=
  let byText := if plain then Scalar.plain? text else some (.string (String.ofList text))
  match tag with
  | none => byText
  | some (0x21 :: _) => byText
  | some tag => Scalar.coerce? (Text.Utf8.decodeLossy tag) text

/-- Wraps a value in the own tag of its node. -/
def wrap (tag : Option (List UInt8)) (v : Value) : Value :=
  match ownTag? tag with
  | some t => .tagged t v
  | none => v

/-- The value of a node that is no alias, given how to build the nodes inside
    it (`none` where nesting ends). -/
def nodeValue (inside : Option (Node Nat → Build Value)) : Node Nat → Build Value
  | .scalar props text plain, left =>
    (scalarValue props.tag text plain).map fun v => (wrap props.tag v, left)
  | .sequence props items, left =>
    match inside with
    | none => none
    | some build =>
      (Build.list build items left).map fun (vs, left) => (wrap props.tag (.sequence vs), left)
  | .mapping props entries, left =>
    match inside with
    | none => none
    | some build =>
      (Build.entries build [] entries left).map
        fun (vs, left) => (wrap props.tag (.mapping vs), left)
  | .alias _, _ => none

/-- Follows an alias to its node; each step uses up one replacement. -/
def follow? (anchors : List (Nat × Node Nat)) : Node Nat → Nat → Option (Node Nat × Nat)
  | .alias n, left =>
    match left, (anchors.reverse.lookup n) with
    | left + 1, some node => some (node, left)
    | _, _ => none
  | node, left => some (node, left)

/-- The value of a node that may hold `depth` more levels of collections. -/
def valueAt (anchors : List (Nat × Node Nat)) : Nat → Node Nat → Build Value
  | 0, node, left =>
    match follow? anchors node left with
    | none => none
    | some (node, left) => nodeValue none node left
  | depth + 1, node, left =>
    match follow? anchors node left with
    | none => none
    | some (node, left) => nodeValue (some (valueAt anchors depth)) node left

/-- How deep collections may nest. -/
def maxDepth : Nat := 128

/-- How many aliases may be replaced for each event of a document. -/
def aliasFactor : Nat := 100

/-- The value of a document. -/
def Node.value? (node : NamedNode) : Option Value :=
  match node.number? [] with
  | none => none
  | some (node, _) =>
    (valueAt node.anchored maxDepth node (node.events * aliasFactor)).map (·.1)

/-! ## Streams -/

/-- The documents of a stream up to the first error. -/
def Node.ofText (text : List Char) : Leading NamedNode :=
  Node.ofTokens (Token.scan text)

/-- The value of a text that holds at most one document; a text without one
    stands for null. -/
def Value.ofText? (text : List Char) : Option Value :=
  match (Node.ofText text).all? with
  | some [] => some .null
  | some [node] => node.value?
  | _ => none

/-- The values of the documents of a text, one after the other up to the first
    one that is not well formed. Documents without a value are left out. -/
def Value.documents (text : List Char) : List Value :=
  (Node.ofText text).items.filterMap Node.value?

end CompilerRemarks.Yaml
