/-
  CompilerRemarks.Proofs.Yaml.Field

  From the tokens of a field to its value. A key and a flow mapping make up a
  pair of the root mapping (`pairs?_of_field`), and no entry with the same key
  stands before it, as that would be an error; so what the mapping has under
  the key is what was written there (`Node.lookup?_of_field`).
-/
import CompilerRemarks.Proofs.Yaml.FlowLine

namespace CompilerRemarks.Yaml

namespace Node

variable {handles : Handles} {n : Nat} {rest rest' : List Token}

/-! ## Nodes of words -/

/-- A scalar without properties. -/
def bareScalar {ρ : Type} (text : List Char) (plain : Bool) : Node ρ :=
  .scalar .none text plain

/-- Entries with words for keys and scalars for values. -/
def scalarEntries {ρ : Type} (entries : List (List Char × List Char × Bool)) :
    List (Node ρ × Node ρ) :=
  entries.map fun (key, value, plain) => (bareScalar key true, bareScalar value plain)

theorem node?_scalar {text : List Char} {plain block level : Bool} {node : NamedNode}
    (h : node? handles n block level (.scalar text plain :: rest) = some (node, rest')) :
    node = bareScalar text plain ∧ rest' = rest := by
  cases n with
  | zero =>
    rw [node?] at h
    cases h
  | succ n =>
    cases h
    exact ⟨rfl, rfl⟩

theorem node?_flowMapping {block level : Bool} {node : NamedNode}
    (h : node? handles n block level (.flowMapping :: rest) = some (node, rest')) :
    ∃ m pairs, flowPairs? handles m true rest = some (pairs, rest') ∧
      node = .mapping .none pairs := by
  cases n with
  | zero =>
    rw [node?] at h
    cases h
  | succ n =>
    obtain ⟨⟨pairs, r⟩, hpairs, heq⟩ := Option.map_eq_some_iff.mp h
    cases heq
    exact ⟨n, pairs, hpairs, rfl⟩

theorem flowMember?_scalars {key value : List Char} {plain plain' : Bool}
    {pair : NamedNode × NamedNode}
    (h : flowMember? handles n
      (.key :: .scalar key plain :: .value :: .scalar value plain' :: rest) = some (pair, rest')) :
    pair = (bareScalar key plain, bareScalar value plain') ∧ rest' = rest := by
  rw [flowMember?_key] at h
  obtain ⟨⟨key', r⟩, hkey, h⟩ := Option.bind_eq_some_iff.mp h
  obtain ⟨⟨value', r'⟩, hvalue, heq⟩ := Option.map_eq_some_iff.mp h
  cases heq
  cases n with
  | zero =>
    rw [flowKey?] at hkey
    cases hkey
  | succ n =>
    rw [flowKey?_succ] at hkey
    obtain ⟨rfl, rfl⟩ := node?_scalar hkey
    rw [flowValue?_value] at hvalue
    obtain ⟨rfl, rfl⟩ := node?_scalar hvalue
    exact ⟨rfl, rfl⟩

/-- A pair of scalars is the next one of a flow mapping. -/
theorem flowPairs?_scalars {key value : List Char} {plain plain' : Bool}
    {pairs : List (NamedNode × NamedNode)}
    (h : flowPairs? handles n true
      (.key :: .scalar key plain :: .value :: .scalar value plain' :: rest) = some (pairs, rest')) :
    ∃ m later, flowPairs? handles m false rest = some (later, rest') ∧
      pairs = (bareScalar key plain, bareScalar value plain') :: later := by
  cases n with
  | zero =>
    rw [flowPairs?] at h
    cases h
  | succ n =>
    rw [(isFlow_flowPairs? handles).item n _ (by simp)] at h
    obtain ⟨⟨pair, r⟩, hentry, h⟩ := Option.bind_eq_some_iff.mp h
    obtain ⟨⟨later, r'⟩, hlater, heq⟩ := Option.map_eq_some_iff.mp h
    cases heq
    obtain ⟨rfl, rfl⟩ := flowMember?_scalars hentry
    exact ⟨n, later, hlater, rfl⟩

/-- Behind such entries, a pair of scalars is one of the flow mapping. -/
theorem flowPairs?_entries {key value : List Char} {plain plain' : Bool}
    (entries : List (List Char × List Char × Bool)) :
    ∀ {n : Nat} {pairs : List (NamedNode × NamedNode)},
      flowPairs? handles n true (entryTokens entries ++
        .key :: .scalar key plain :: .value :: .scalar value plain' :: rest) = some (pairs, rest') →
      ∃ later, pairs =
        scalarEntries entries ++ (bareScalar key plain, bareScalar value plain') :: later := by
  induction entries with
  | nil =>
    intro n pairs h
    obtain ⟨-, later, -, rfl⟩ := flowPairs?_scalars h
    exact ⟨later, rfl⟩
  | cons entry entries ih =>
    intro n pairs h
    obtain ⟨m, later, hlater, rfl⟩ := flowPairs?_scalars h
    cases m with
    | zero =>
      rw [flowPairs?] at hlater
      cases hlater
    | succ m =>
      have hnext : flowPairs? handles (m + 1) false (.separator :: (entryTokens entries ++
          .key :: .scalar key plain :: .value :: .scalar value plain' :: rest)) =
            some (later, rest') := hlater
      rw [(isFlow_flowPairs? handles).separator] at hnext
      obtain ⟨later', rfl⟩ := ih hnext
      exact ⟨later', rfl⟩

/-- The tokens of a key and a flow mapping are a pair of a block mapping. -/
theorem pairs?_of_field {name key value : List Char} {plain : Bool}
    {entries : List (List Char × List Char × Bool)} {pairs : List (NamedNode × NamedNode)}
    (h : pairs? handles n (.key :: .scalar name true :: .value :: .flowMapping ::
      (entryTokens entries ++ .key :: .scalar key true :: .value :: .scalar value plain :: rest)) =
        some (pairs, rest')) :
    ∃ fields later, pairs = (bareScalar name true, .mapping .none (scalarEntries entries ++
      (bareScalar key true, bareScalar value plain) :: fields)) :: later := by
  cases n with
  | zero =>
    rw [pairs?] at h
    cases h
  | succ n =>
    rw [pairs?] at h
    split at h
    · cases h
    · rename_i node r hkey
      obtain ⟨rfl, rfl⟩ := node?_scalar hkey
      split at h
      · cases h
      · rename_i node' r' hvalue
        obtain ⟨⟨later, r''⟩, -, heq⟩ := Option.map_eq_some_iff.mp h
        cases heq
        cases n with
        | zero =>
          rw [pairValue?] at hvalue
          cases hvalue
        | succ n =>
          rw [pairValue?] at hvalue
          obtain ⟨m, fields, hfields, rfl⟩ := node?_flowMapping hvalue
          obtain ⟨fields', rfl⟩ := flowPairs?_entries entries hfields
          exact ⟨fields', later, rfl⟩

/-! ## Numbering -/

theorem number?_scalar (names : AnchorNames) (text : List Char) (plain : Bool) :
    number? names (bareScalar text plain) = some (bareScalar text plain, names) := by
  rw [bareScalar, number?]
  rfl

/-- Each entry of a mapping is numbered by itself. -/
theorem numberEntries?_append {key value : NamedNode} {later : List (NamedNode × NamedNode)} :
    ∀ {entries : List (NamedNode × NamedNode)} {names names' : AnchorNames}
      {numbered : List (Node Nat × Node Nat)},
      numberEntries? names (entries ++ (key, value) :: later) = some (numbered, names') →
      ∃ before key' value' after names₁ names₂ names₃,
        numbered = before ++ (key', value') :: after ∧
        number? names₁ key = some (key', names₂) ∧
        number? names₂ value = some (value', names₃) := by
  intro entries
  induction entries with
  | nil =>
    intro names names' numbered h
    rw [List.nil_append, numberEntries?] at h
    split at h
    · cases h
    · rename_i key' names₁ hkey
      split at h
      · cases h
      · rename_i value' names₂ hvalue
        obtain ⟨⟨after, _⟩, -, heq⟩ := Option.map_eq_some_iff.mp h
        cases heq
        exact ⟨[], key', value', after, names, names₁, names₂, rfl, hkey, hvalue⟩
  | cons entry entries ih =>
    intro names names' numbered h
    rw [List.cons_append, numberEntries?] at h
    split at h
    · cases h
    · split at h
      · cases h
      · obtain ⟨⟨rest, _⟩, hrest, heq⟩ := Option.map_eq_some_iff.mp h
        cases heq
        obtain ⟨before, key', value', after, names₁, names₂, names₃, rfl, hkey, hvalue⟩ := ih hrest
        exact ⟨_ :: before, key', value', after, names₁, names₂, names₃, rfl, hkey, hvalue⟩

theorem number?_mapping {names names' : AnchorNames} {props : Properties (List Char)}
    {pairs : List (NamedNode × NamedNode)} {node : Node Nat}
    (h : number? names (.mapping props pairs) = some (node, names')) :
    ∃ numbered names₁, numberEntries? names₁ pairs = some (numbered, names') ∧
      node = .mapping (names.anchor props).1 numbered := by
  rw [number?] at h
  obtain ⟨⟨numbered, _⟩, hnumbered, heq⟩ := Option.map_eq_some_iff.mp h
  cases heq
  exact ⟨numbered, _, hnumbered, rfl⟩

end Node

/-! ## Entries of a value -/

/-- The value of a scalar without properties. -/
theorem valueAt_scalar {anchors : List (Nat × Node Nat)} {depth left left' : Nat} {text : List Char}
    {plain : Bool} {v : Value} (h : valueAt anchors depth (Node.bareScalar text plain) left =
      some (v, left')) : scalarValue none text plain = some v := by
  have hvalue : valueAt anchors depth (Node.bareScalar text plain) left =
      (scalarValue none text plain).map fun v => (v, left) := by cases depth <;> rfl
  rw [hvalue] at h
  obtain ⟨w, hw, heq⟩ := Option.map_eq_some_iff.mp h
  cases heq
  exact hw

theorem valueAt_mapping {anchors : List (Nat × Node Nat)} {depth left left' : Nat}
    {props : Properties Nat} {pairs : List (Node Nat × Node Nat)} {v : Value}
    (h : valueAt anchors depth (.mapping props pairs) left = some (v, left')) :
    ∃ depth' entries, Build.entries (valueAt anchors depth') [] pairs left = some (entries, left') ∧
      v = wrap props.tag (.mapping entries) := by
  cases depth with
  | zero => cases h
  | succ depth =>
    obtain ⟨⟨entries, _⟩, hentries, heq⟩ := Option.map_eq_some_iff.mp h
    cases heq
    exact ⟨depth, entries, hentries, rfl⟩

/-- The entries before stay in front. -/
theorem entries_append {α : Type} {build : α → Build Value} :
    ∀ {pairs : List (α × α)} {seen entries : List (Value × Value)} {left left' : Nat},
      Build.entries build seen pairs left = some (entries, left') →
      ∃ after, entries = seen ++ after := by
  intro pairs
  induction pairs with
  | nil =>
    intro seen entries left left' h
    cases h
    exact ⟨[], (List.append_nil _).symm⟩
  | cons pair pairs ih =>
    intro seen entries left left' h
    rw [Build.entries] at h
    split at h
    · cases h
    · split at h
      · cases h
      · split at h
        · cases h
        · obtain ⟨after, rfl⟩ := ih h
          exact ⟨_ :: after, by rw [List.append_assoc, List.singleton_append]⟩

/-- Each entry is built by itself, and no entry before it has the same key. -/
theorem entries_of_append {α : Type} {build : α → Build Value} {key value : α}
    {later : List (α × α)} :
    ∀ {pairs : List (α × α)} {seen entries : List (Value × Value)} {left left' : Nat},
      Build.entries build seen (pairs ++ (key, value) :: later) left = some (entries, left') →
      ∃ before k v after left₁ left₂ left₃, entries = before ++ (k, v) :: after ∧
        build key left₁ = some (k, left₂) ∧ build value left₂ = some (v, left₃) ∧
        ∀ e ∈ before, e.1.same k = false := by
  intro pairs
  induction pairs with
  | nil =>
    intro seen entries left left' h
    rw [List.nil_append, Build.entries] at h
    split at h
    · cases h
    · rename_i k left₂ hkey
      split at h
      · cases h
      · rename_i hnew
        split at h
        · cases h
        · rename_i v left₃ hvalue
          obtain ⟨after, rfl⟩ := entries_append h
          refine ⟨seen, k, v, after, left, left₂, left₃, by simp, hkey, hvalue, fun e he => ?_⟩
          simpa using fun hsame => hnew (List.any_eq_true.mpr ⟨e, he, hsame⟩)
  | cons pair pairs ih =>
    intro seen entries left left' h
    rw [List.cons_append, Build.entries] at h
    split at h
    · cases h
    · split at h
      · cases h
      · split at h
        · cases h
        · exact ih h

/-- A string key is found behind entries with other keys. -/
theorem lookup?_append {before after : List (Value × Value)} {key : String} {v : Value}
    (h : ∀ e ∈ before, e.1.same (.string key) = false) :
    Value.lookup? (before ++ (.string key, v) :: after) key = some v := by
  induction before with
  | nil => simp [Value.lookup?]
  | cons e before ih =>
    obtain ⟨hother, hbefore⟩ := List.forall_mem_cons.mp h
    have hne : e.1 ≠ .string key := by
      intro heq
      rw [heq] at hother
      simp [Value.same] at hother
    rw [List.cons_append, Value.lookup?_cons_of_ne hne, ih hbefore]

/-- The value of a mapping that has a pair with a plain key. -/
theorem lookup?_of_pair {anchors : List (Nat × Node Nat)} {depth left left' : Nat}
    {before after : List (Node Nat × Node Nat)} {name : List Char} {node : Node Nat} {key : String}
    {entries : List (Value × Value)} (hkey : Scalar.plain? name = some (.string key))
    (h : Build.entries (valueAt anchors depth) []
      (before ++ (Node.bareScalar name true, node) :: after) left = some (entries, left')) :
    ∃ v left₁ left₂, Value.lookup? entries key = some v ∧
      valueAt anchors depth node left₁ = some (v, left₂) := by
  obtain ⟨before', k, v, after', left₁, left₂, left₃, rfl, hk, hv, hother⟩ := entries_of_append h
  have hname : scalarValue none name true = some k := valueAt_scalar hk
  obtain rfl : k = .string key := Option.some.inj (hname.symm.trans hkey)
  exact ⟨v, left₂, left₃, lookup?_append hother, hv⟩

theorem mapping?_wrap (tag : Option (List UInt8)) (v : Value) :
    (wrap tag v).mapping? = v.mapping? := by
  rw [wrap]
  cases ownTag? tag <;> rfl

/-- What a root mapping has under a key, where a flow mapping was written. -/
theorem Node.lookup?_of_field {props : Properties (List Char)} {name key value : List Char}
    {plain : Bool} {pairs later fields fields' : List (NamedNode × NamedNode)} {v : Value}
    {s t : String} (hname : Scalar.plain? name = some (.string s))
    (hkey : Scalar.plain? key = some (.string t))
    (h : Node.value? (.mapping props (pairs ++ (bareScalar name true, .mapping .none
      (fields ++ (bareScalar key true, bareScalar value plain) :: fields')) :: later)) = some v) :
    ∃ entries places w, v.mapping? = some entries ∧
      Value.lookup? entries s = some (.mapping places) ∧ Value.lookup? places t = some w ∧
      scalarValue none value plain = some w := by
  rw [Node.value?] at h
  split at h
  · cases h
  · rename_i node names hnode
    obtain ⟨⟨_, left⟩, hvalue, rfl⟩ := Option.map_eq_some_iff.mp h
    obtain ⟨numbered, names₁, hnumbered, rfl⟩ := number?_mapping hnode
    obtain ⟨before, key₁, field, after, names₂, names₃, names₄, rfl, hkey₁, hfield⟩ :=
      numberEntries?_append hnumbered
    rw [number?_scalar] at hkey₁
    cases hkey₁
    obtain ⟨inner, names₅, hinner, rfl⟩ := number?_mapping hfield
    obtain ⟨before', key₂, text, after', names₆, names₇, names₈, rfl, hkey₂, htext⟩ :=
      numberEntries?_append hinner
    rw [number?_scalar] at hkey₂ htext
    cases hkey₂
    cases htext
    obtain ⟨depth, entries, hentries, rfl⟩ := valueAt_mapping hvalue
    obtain ⟨_, left₁, left₂, hlookup, hmapping⟩ := lookup?_of_pair hname hentries
    obtain ⟨depth', places, hplaces, rfl⟩ := valueAt_mapping hmapping
    obtain ⟨w, left₃, left₄, hlookup', hw⟩ := lookup?_of_pair hkey hplaces
    exact ⟨entries, places, w, mapping?_wrap _ _, hlookup, hlookup', valueAt_scalar hw⟩

/-- What spells no null, no boolean and no number stands for its own text. -/
theorem Scalar.plain?_of_text {s : List Char} (hnull : (s.isEmpty || isNull s) = false)
    (hbool : bool? s = none) (hnatural : unsigned? s = none) (hnegated : negated? s = none)
    (hfloat : (float? s).isNone = true) : plain? s = some (.string (String.ofList s)) := by
  rw [plain?, hnull, if_neg Bool.false_ne_true, hbool, integer?, hnatural, hnegated]
  simp only [Option.isNone_iff_eq_none.mp hfloat, Option.map_none, Option.getD_none, ite_self]

/-! ## Mappings by themselves -/

theorem mapping?_of_plain? {text : List Char} {v : Value} (h : Scalar.plain? text = some v) :
    v.mapping? = none := by
  rw [Scalar.plain?] at h
  split at h
  · cases h
    rfl
  · split at h
    · cases h
      rfl
    · split at h
      · cases h
        rfl
      · cases h
      · split at h
        · cases h
          rfl
        · obtain rfl := Option.some.inj h
          cases Scalar.float? text <;> rfl

theorem mapping?_of_coerce? {tag text : List Char} {v : Value}
    (h : Scalar.coerce? tag text = some v) : v.mapping? = none := by
  rw [Scalar.coerce?] at h
  split at h
  · obtain ⟨_, -, rfl⟩ := Option.map_eq_some_iff.mp h
    rfl
  · split at h
    · split at h <;> cases h
      rfl
    · split at h
      · obtain ⟨_, -, rfl⟩ := Option.map_eq_some_iff.mp h
        rfl
      · split at h
        · split at h <;> cases h
          rfl
        · cases h
          rfl

theorem mapping?_of_scalarValue {tag : Option (List UInt8)} {text : List Char} {plain : Bool}
    {v : Value} (h : scalarValue tag text plain = some v) : v.mapping? = none := by
  have hbyText : (if plain then Scalar.plain? text else some (.string (String.ofList text))) =
      some v → v.mapping? = none := by
    intro h
    split at h
    · exact mapping?_of_plain? h
    · cases h
      rfl
  rw [scalarValue.eq_def] at h
  generalize (if plain then Scalar.plain? text else some (.string (String.ofList text))) = byText
    at h hbyText
  dsimp only at h
  split at h
  · exact hbyText h
  · exact hbyText h
  · exact mapping?_of_coerce? h

/-- Only a mapping has the value of one. -/
theorem Node.exists_mapping {node : NamedNode} {v : Value} (h : node.value? = some v)
    (hv : v.mapping? ≠ none) : ∃ props pairs, node = .mapping props pairs := by
  rw [Node.value?] at h
  split at h
  · cases h
  · rename_i numbered names hnumber
    obtain ⟨⟨_, left⟩, hvalue, rfl⟩ := Option.map_eq_some_iff.mp h
    rcases node with ⟨props, text, plain⟩ | ⟨props, items⟩ | ⟨props, pairs⟩ | ⟨name⟩
    · rw [number?] at hnumber
      cases hnumber
      obtain ⟨w, hw, heq⟩ := Option.map_eq_some_iff.mp hvalue
      cases heq
      exact absurd ((mapping?_wrap _ _).trans (mapping?_of_scalarValue hw)) hv
    · rw [number?] at hnumber
      obtain ⟨_, -, heq⟩ := Option.map_eq_some_iff.mp hnumber
      cases heq
      obtain ⟨_, -, heq⟩ := Option.map_eq_some_iff.mp hvalue
      cases heq
      exact absurd (mapping?_wrap _ _) hv
    · exact ⟨props, pairs, rfl⟩
    · rw [number?] at hnumber
      cases hnumber

/-! ## A field on a line -/

/-- Lines that are by themselves a mapping lead to the line behind them. -/
theorem leads_of_mapping {init : List Char} {v : Value}
    (h : Value.ofText? (init ++ ['\n']) = some v) (hv : v.mapping? ≠ none) :
    Leads (init ++ ['\n']) := by
  rw [Value.ofText?] at h
  split at h
  · cases h
    exact absurd rfl hv
  · rename_i node hall
    obtain ⟨props, pairs, rfl⟩ := Node.exists_mapping h hv
    exact .mapping hall
  · cases h

/-- A line with a word, a flow mapping behind it, and a scalar under another word
    of the mapping: the text from the line on, and the text behind that word. -/
inductive FieldAt (name key value : List Char) (plain : Bool) : List Char → List Char → Prop where
  | mk {gap gap' gap'' x y z : List Char} {fields : List (List Char × List Char × Bool)}
      (hgap : ∀ c ∈ gap, isGap c = true) (hne : gap ≠ [])
      (hfields : EntriesAt fields x (gap' ++ (key ++ ':' :: (gap'' ++ y))))
      (hgap' : ∀ c ∈ gap', isGap c = true) (hgap'' : ∀ c ∈ gap'', isGap c = true)
      (hne' : gap'' ≠ []) (hvalue : ScalarAt value plain y z) :
      FieldAt name key value plain (name ++ ':' :: (gap ++ '\x7b' :: x)) (gap'' ++ y)

theorem FieldAt.append {name key value line behind more : List Char} {plain : Bool}
    (h : FieldAt name key value plain line behind) (hmore : more.head? ≠ some '\'') :
    FieldAt name key value plain (line ++ more) (behind ++ more) := by
  cases h with
  | mk hgap hne hfields hgap' hgap'' hne' hvalue =>
    have hfields' := hfields.append hmore
    simp only [List.append_assoc, List.cons_append] at hfields' ⊢
    exact .mk hgap hne hfields' hgap' hgap'' hne' (hvalue.append hmore)

/-- The scalar of a field is behind the blanks after its key. -/
theorem FieldAt.scalarAt {name key value line behind : List Char} {plain : Bool}
    (h : FieldAt name key value plain line behind) : ∃ gap y z, behind = gap ++ y ∧
      (∀ c ∈ gap, isGap c = true) ∧ ScalarAt value plain y z := by
  cases h with
  | mk _ _ _ _ hgap _ hvalue => exact ⟨_, _, _, rfl, hgap, hvalue⟩

/-- A word starts a token. -/
theorem startsToken_of_isWord {word behind : List Char} (h : isWord word = true) :
    StartsToken (word ++ behind) := by
  obtain ⟨c, rest, rfl, -, hchars⟩ := exists_of_isWord h
  have hc := hchars c List.mem_cons_self
  obtain ⟨hblank, hbreak, -, -⟩ := isNameChar_plain hc
  exact ⟨c, rest ++ behind, rfl, hblank, hbreak, ne_of_isNameChar hc (by decide),
    ne_of_isNameChar hc (by decide)⟩

/-- The tokens of a field on a line, behind those that the scanner has when it
    reaches the line. -/
theorem FieldAt.tokens {name key value line behind tail : List Char} {plain : Bool} {c : Char}
    {there next : Scanner} {tokens : List Token} (h : FieldAt name key value plain line behind)
    (hname : isWord name = true) (hkey : isWord key = true) (hlong : key.length ≤ 1024)
    (hthere : AtLineStart line there) (hcons : line = c :: tail)
    (hnext : there.token? c tail = some next) (hyields : next.Yields tokens) :
    ∃ fields more later, later = Token.key :: .scalar name true :: .value :: .flowMapping ::
        (entryTokens fields ++ .key :: .scalar key true :: .value :: .scalar value plain :: more) ∧
      (there.indent = 0 → tokens = there.tokens.reverse ++ later) ∧
      (there.indent = -1 → tokens = there.tokens.reverse ++ .blockMapping :: later) := by
  cases h with
  | @mk gap gap' gap'' x y z fields hgap hne hfields hgap' hgap'' hne' hvalue =>
    have hblank : atGap (gap'' ++ y) = true := by
      obtain ⟨g, gap'', rfl⟩ := List.exists_cons_of_ne_nil hne'
      simp [atGap, hgap'' g List.mem_cons_self]
    obtain ⟨base, hbase, hwithin⟩ := hthere.within hname hgap hne rfl hcons hnext hyields
    have hread := ((hwithin.entries hfields).key hgap' hkey hlong hblank).scalar hgap'' hvalue
    obtain ⟨more, rfl⟩ := hread.firstTokens
    refine ⟨fields, more, _, rfl, fun hindent => ?_, fun hindent => ?_⟩
    · rcases hbase with ⟨hnone, -⟩ | ⟨-, rfl⟩
      · rw [hindent] at hnone
        cases hnone
      · simp
    · rcases hbase with ⟨-, rfl⟩ | ⟨hzero, -⟩
      · simp
      · rw [hindent] at hzero
        cases hzero

/-- A field of the root mapping with a flow mapping, where it was written on a
    line: what the mapping has under the keys is what stands there. -/
theorem Value.lookup?_of_line {text name key value line behind : List Char} {plain : Bool}
    {v : Value} {entries : List (Value × Value)} {s t : String} (h : Leads text)
    (hline : FieldAt name key value plain line behind) (hname : isWord name = true)
    (hs : Scalar.plain? name = some (.string s)) (hkey : isWord key = true)
    (hlong : key.length ≤ 1024) (ht : Scalar.plain? key = some (.string t))
    (hv : Value.ofText? (text ++ line) = some v) (hentries : v.mapping? = some entries) :
    ∃ places w, Value.lookup? entries s = some (.mapping places) ∧
      Value.lookup? places t = some w ∧ scalarValue none value plain = some w := by
  rw [Value.ofText?] at hv
  split at hv
  · cases hv
    cases hentries
  · rename_i node hall
    have hstart : StartsToken line := by
      cases hline
      exact startsToken_of_isWord hname
    obtain ⟨hisAll, -⟩ := Node.first?_of_single hall
    rw [Node.ofText] at hall
    generalize hscan : Token.scan (text ++ line) = scanned at hall hisAll
    obtain ⟨tokens', isAll⟩ := scanned
    obtain rfl : isAll = true := hisAll
    obtain ⟨there, c, tail, next, k, tokens, hthere, hcons, hnext, hrun, htokens, hblock,
      hstream⟩ := h.reach hstart hscan
    obtain ⟨fields, more, later, hlater, hopen, hnew⟩ :=
      hline.tokens hname hkey hlong hthere hcons hnext ⟨k, hrun⟩
    obtain ⟨handles, m, props, before, pairs, rest, hpairs, rfl⟩ :=
      h.startsPair hall htokens hthere.indent
        (fun hindent => ⟨hblock hindent, hopen hindent⟩)
        (fun hindent => ⟨hstream hindent, hnew hindent⟩) (by rw [hlater]; rfl)
    rw [hlater] at hpairs
    obtain ⟨fields', after, rfl⟩ := Node.pairs?_of_field hpairs
    obtain ⟨entries', places, w, hentries', hplaces, hw, htext⟩ := Node.lookup?_of_field hs ht hv
    obtain rfl := Option.some.inj (hentries.symm.trans hentries')
    exact ⟨places, w, hplaces, hw, htext⟩
  · cases hv

end CompilerRemarks.Yaml
