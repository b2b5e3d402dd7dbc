/-
  CompilerRemarks.Proofs.Yaml.Node

  What a node is read from. A reader takes the tokens of its node and looks at
  one token behind them, of which it sees only whether it goes on with the node
  (`Reads`); a collection with an end mark is read from its own tokens
  alone (`Closes`). From each point of these tokens to their end no more
  brackets are opened than closed (`Tame`).
-/
import CompilerRemarks.Yaml.Node
import CompilerRemarks.Proofs.Yaml.Moves

namespace CompilerRemarks.Yaml.Node

variable {rest rest' taken tokens : List Token} {t : Token}

/-! ## Tokens of nodes -/

/-- From no token on, more brackets are opened than closed. -/
def Tame (tokens : List Token) : Prop :=
  ∀ later, later <:+ tokens → weight later ≤ 0

theorem tame_nil : Tame [] := by
  intro later h
  rw [List.suffix_nil.mp h]
  exact Int.le_refl _

theorem Tame.weight_le (h : Tame tokens) : weight tokens ≤ 0 :=
  h tokens (List.suffix_refl _)

theorem Tame.cons (h : Tame tokens)
    (ht : t.weight + weight tokens ≤ 0) : Tame (t :: tokens) := by
  intro later hlater
  rcases List.suffix_cons_iff.mp hlater with rfl | hlater
  · rwa [weight_cons]
  · exact h later hlater

theorem Tame.append {tokens' : List Token} (h : Tame tokens) (h' : Tame tokens') :
    Tame (tokens ++ tokens') := by
  induction tokens with
  | nil => exact h'
  | cons t tokens ih =>
    refine (ih fun later hlater => h later (hlater.trans (List.suffix_cons _ _))).cons ?_
    have hle := h.weight_le
    have hle' := h'.weight_le
    rw [weight_cons] at hle
    rw [weight_append]
    omega

/-- Two continuations that no reader tells apart where a node may end: they
    start alike, or one ends a block mapping that the other goes on with. -/
def Alike (rest rest' : List Token) : Prop :=
  rest.head? = rest'.head? ∨ rest.head? = some .blockEnd ∧ rest'.head? = some .key

theorem alike_append (taken : List Token) (h : Alike rest rest') :
    Alike (taken ++ rest) (taken ++ rest') := by
  cases taken with
  | nil => exact h
  | cons t taken => exact .inl rfl

theorem alike_of_ne_nil (h : taken ≠ []) (rest rest' : List Token) :
    Alike (taken ++ rest) (taken ++ rest') := by
  cases taken with
  | nil => exact absurd rfl h
  | cons t taken => exact .inl rfl

theorem Alike.forms (h : Alike rest rest') :
    rest = [] ∧ rest' = [] ∨ (∃ t r r', rest = t :: r ∧ rest' = t :: r') ∨
      ∃ r r', rest = .blockEnd :: r ∧ rest' = .key :: r' := by
  rcases h with hsame | ⟨hend, hkey⟩
  · cases rest with
    | nil => exact .inl ⟨rfl, List.head?_eq_none_iff.mp hsame.symm⟩
    | cons t r =>
      obtain ⟨r', hr⟩ := List.head?_eq_some_iff.mp hsame.symm
      exact .inr (.inl ⟨t, r, r', rfl, hr⟩)
  · obtain ⟨r, hr⟩ := List.head?_eq_some_iff.mp hend
    obtain ⟨r', hr'⟩ := List.head?_eq_some_iff.mp hkey
    exact .inr (.inr ⟨r, r', hr, hr'⟩)

theorem ne_nil_of_getLast? (h : taken.getLast? = some t) : taken ≠ [] := by
  rintro rfl
  cases h

theorem endsPair_alike (h : Alike rest rest') : endsPair rest' = endsPair rest := by
  rcases h.forms with ⟨rfl, rfl⟩ | ⟨t, r, r', rfl, rfl⟩ | ⟨r, r', rfl, rfl⟩
  · rfl
  · cases t <;> rfl
  · rfl

theorem endsItem_of_ne_nil (h : taken ≠ []) (rest rest' : List Token) :
    endsItem (taken ++ rest') = endsItem (taken ++ rest) := by
  cases taken with
  | nil => exact absurd rfl h
  | cons t taken => cases t <;> rfl

/-- Whether a level item is missing is seen by readers of both kinds. -/
theorem endsLevelItem_alike (h : Alike rest rest') :
    (endsItem rest' || endsPair rest') = (endsItem rest || endsPair rest) := by
  rcases h.forms with ⟨rfl, rfl⟩ | ⟨t, r, r', rfl, rfl⟩ | ⟨r, r', rfl, rfl⟩
  · rfl
  · cases t <;> rfl
  · rfl

/-! ## Readers -/

variable {α : Type} {handles : Handles} {n : Nat}

/-- With fuel `n`, a reader takes the tokens of what it reads, and reads it
    from them however they go on alike. -/
def Reads (f : Nat → List Token → Option (α × List Token)) (n : Nat) : Prop :=
  ∀ ⦃tokens : List Token⦄ ⦃x : α⦄ ⦃rest : List Token⦄, f n tokens = some (x, rest) →
    ∃ taken, tokens = taken ++ rest ∧ Tame taken ∧
      ∀ ⦃m : Nat⦄ ⦃rest' : List Token⦄, n ≤ m → Alike rest rest' →
        f m (taken ++ rest') = some (x, rest')

/-- With fuel `n`, a reader takes tokens up to an end mark, the brackets among
    them closed and `k` more, and reads the same from them however they go on. -/
def Closes (k : Int) (mark : Token) (f : Nat → List Token → Option (α × List Token)) (n : Nat) :
    Prop :=
  ∀ ⦃tokens : List Token⦄ ⦃x : α⦄ ⦃rest : List Token⦄, f n tokens = some (x, rest) →
    ∃ taken, tokens = taken ++ rest ∧ taken.getLast? = some mark ∧ Tame taken ∧
      weight taken ≤ -k ∧
      ∀ ⦃m : Nat⦄ ⦃rest' : List Token⦄, n ≤ m → f m (taken ++ rest') = some (x, rest')

/-- All readers with fuel `n`. -/
structure Local (handles : Handles) (n : Nat) : Prop where
  node : ∀ block level, Reads (fun m => node? handles m block level) n
  items : Closes 0 .blockEnd (items? handles) n
  levelItems : Reads (levelItems? handles) n
  pairs : Closes 0 .blockEnd (pairs? handles) n
  pairValue : Reads (pairValue? handles) n
  flowItems : ∀ first, Closes 1 .flowSequenceEnd (fun m => flowItems? handles m first) n
  flowPair : Reads (flowPair? handles) n
  flowPairs : ∀ first, Closes 1 .flowMappingEnd (fun m => flowPairs? handles m first) n
  flowKey : Reads (flowKey? handles) n
  flowValue : Reads (flowValue? handles) n

theorem reads_zero {f : Nat → List Token → Option (α × List Token)}
    (h : ∀ tokens, f 0 tokens = none) : Reads f 0 := by
  intro tokens x rest hread
  rw [h] at hread
  cases hread

theorem closes_zero {k : Int} {mark : Token} {f : Nat → List Token → Option (α × List Token)}
    (h : ∀ tokens, f 0 tokens = none) : Closes k mark f 0 := by
  intro tokens x rest hread
  rw [h] at hread
  cases hread

theorem Local.zero (handles : Handles) : Local handles 0 where
  node _ _ := reads_zero fun _ => by simp only [node?]
  items := closes_zero fun _ => by simp only [items?]
  levelItems := reads_zero fun _ => by simp only [levelItems?]
  pairs := closes_zero fun _ => by simp only [pairs?]
  pairValue := reads_zero fun _ => by simp only [pairValue?]
  flowItems _ := closes_zero fun _ => by simp only [flowItems?]
  flowPair := reads_zero fun _ => by simp only [flowPair?]
  flowPairs _ := closes_zero fun _ => by simp only [flowPairs?]
  flowKey := reads_zero fun _ => by simp only [flowKey?]
  flowValue := reads_zero fun _ => by simp only [flowValue?]

/-- Fuel that is enough for a reader with fuel `n + 1` leaves enough for one with fuel `n`. -/
theorem exists_succ {m : Nat} (h : n + 1 ≤ m) : ∃ k, m = k + 1 ∧ n ≤ k :=
  ⟨m - 1, by omega, by omega⟩

/-- A node that may be missing is missing alike. -/
theorem Reads.orEmpty {f : Nat → List Token → Option (α × List Token)} {p : List Token → Bool}
    (hp : ∀ {r r' : List Token}, Alike r r' → p r' = p r) (x₀ : α) (h : Reads f n) :
    Reads (fun m r => if p r then some (x₀, r) else f m r) n := by
  intro tokens x rest hread
  dsimp only at hread ⊢
  split at hread
  · rename_i hmissing
    cases hread
    refine ⟨[], rfl, tame_nil, fun _ _ _ halike => ?_⟩
    rw [List.nil_append, hp halike, if_pos hmissing]
  · rename_i hwritten
    obtain ⟨taken, rfl, htame, hmore⟩ := h hread
    refine ⟨taken, rfl, htame, fun _ _ hm halike => ?_⟩
    rw [hp (alike_append taken halike), if_neg hwritten, hmore hm halike]

/-! ### Block collections -/

theorem Local.pairs_succ (ih : Local handles n) : Closes 0 .blockEnd (pairs? handles) (n + 1) := by
  intro tokens x rest h
  rw [pairs?.eq_def] at h
  split at h
  · cases h
  · rename_i n' r heq
    cases heq
    split at h
    · cases h
    · rename_i key r₁ hkey
      split at h
      · cases h
      · rename_i value r₂ hvalue
        obtain ⟨⟨pairs, r₃⟩, hpairs, heq⟩ := Option.map_eq_some_iff.mp h
        cases heq
        obtain ⟨t₁, rfl, htame₁, hmore₁⟩ := (ih.node true true).orEmpty endsPair_alike empty hkey
        obtain ⟨t₂, rfl, htame₂, hmore₂⟩ := ih.pairValue hvalue
        obtain ⟨t₃, rfl, hlast, htame₃, hweight, hmore₃⟩ := ih.pairs hpairs
        have hne := ne_nil_of_getLast? hlast
        have htame := htame₁.append (htame₂.append htame₃)
        have hle := htame.weight_le
        refine ⟨.key :: (t₁ ++ (t₂ ++ t₃)), by simp, by simp [List.getLast?_cons, hlast],
          htame.cons (by simpa [Token.weight] using hle), by simpa [Token.weight] using hle,
          fun m rest' hm => ?_⟩
        obtain ⟨m, rfl, hn⟩ := exists_succ hm
        have halike := alike_of_ne_nil hne rest rest'
        have hkey' := hmore₁ hn (alike_append t₂ halike)
        have hvalue' := hmore₂ hn halike
        dsimp only at hkey'
        simp only [List.cons_append, List.append_assoc, pairs?, hkey', hvalue', hmore₃ hn,
          Option.map_some]
  · rename_i heq
    cases heq
    cases h
    refine ⟨[.blockEnd], rfl, rfl, tame_nil.cons (by decide), by decide,
      fun m rest' hm => ?_⟩
    obtain ⟨m, rfl, -⟩ := exists_succ hm
    rfl
  · cases h

theorem Local.pairValue_succ (ih : Local handles n) : Reads (pairValue? handles) (n + 1) := by
  intro tokens x rest h
  rw [pairValue?.eq_def] at h
  split at h
  · cases h
  · rename_i n' r heq
    cases heq
    obtain ⟨t₁, rfl, htame, hmore⟩ := (ih.node true true).orEmpty endsPair_alike empty h
    have hle := htame.weight_le
    refine ⟨.value :: t₁, rfl, htame.cons (by simpa [Token.weight] using hle),
      fun m rest' hm halike => ?_⟩
    obtain ⟨m, rfl, hn⟩ := exists_succ hm
    rw [List.cons_append, pairValue?]
    exact hmore hn halike
  · rename_i n' hn' hvalue
    cases hn'
    cases h
    refine ⟨[], rfl, tame_nil, fun m rest' hm halike => ?_⟩
    obtain ⟨m, rfl, hn⟩ := exists_succ hm
    rcases halike.forms with ⟨rfl, rfl⟩ | ⟨t, r, r', rfl, rfl⟩ | ⟨r, r', rfl, rfl⟩
    · rfl
    · rw [List.nil_append, pairValue?]
      rintro r'' heq
      cases heq
      exact hvalue _ rfl
    · rfl

theorem Local.items_succ (ih : Local handles n) : Closes 0 .blockEnd (items? handles) (n + 1) := by
  intro tokens x rest h
  rw [items?.eq_def] at h
  split at h
  · cases h
  · rename_i n' r heq
    cases heq
    split at h
    · cases h
    · rename_i item r₁ hitem
      obtain ⟨⟨items, r₂⟩, hitems, heq⟩ := Option.map_eq_some_iff.mp h
      cases heq
      obtain ⟨t₂, rfl, hlast, htame₂, hweight, hmore₂⟩ := ih.items hitems
      have hne := ne_nil_of_getLast? hlast
      -- the item is followed by tokens of the sequence, so it is missing alike
      have hread : ∃ t₁, r = t₁ ++ (t₂ ++ rest) ∧ Tame t₁ ∧ ∀ m rest', n ≤ m →
          (if endsItem (t₁ ++ (t₂ ++ rest')) then some (empty, t₁ ++ (t₂ ++ rest'))
            else node? handles m true false (t₁ ++ (t₂ ++ rest'))) = some (item, t₂ ++ rest') := by
        split at hitem
        · rename_i hmissing
          cases hitem
          refine ⟨[], rfl, tame_nil, fun m rest' _ => ?_⟩
          rw [List.nil_append, endsItem_of_ne_nil hne rest, if_pos hmissing]
        · rename_i hwritten
          obtain ⟨t₁, rfl, htame₁, hmore₁⟩ := ih.node true false hitem
          refine ⟨t₁, rfl, htame₁, fun m rest' hn => ?_⟩
          have hne' : t₁ ++ t₂ ≠ [] := by simp [hne]
          rw [← List.append_assoc, endsItem_of_ne_nil hne' rest, List.append_assoc,
            if_neg hwritten, List.append_assoc]
          exact hmore₁ hn (alike_of_ne_nil hne rest rest')
      obtain ⟨t₁, rfl, htame₁, hmore₁⟩ := hread
      have htame := htame₁.append htame₂
      have hle := htame.weight_le
      refine ⟨.entry :: (t₁ ++ t₂), by simp, by simp [List.getLast?_cons, hlast],
        htame.cons (by simpa [Token.weight] using hle), by simpa [Token.weight] using hle,
        fun m rest' hm => ?_⟩
      obtain ⟨m, rfl, hn⟩ := exists_succ hm
      simp only [List.cons_append, List.append_assoc, items?, hmore₁ m rest' hn, hmore₂ hn,
        Option.map_some]
  · rename_i heq
    cases heq
    cases h
    refine ⟨[.blockEnd], rfl, rfl, tame_nil.cons (by decide), by decide,
      fun m rest' hm => ?_⟩
    obtain ⟨m, rfl, -⟩ := exists_succ hm
    rfl
  · cases h

theorem Local.levelItems_succ (ih : Local handles n) : Reads (levelItems? handles) (n + 1) := by
  intro tokens x rest h
  rw [levelItems?.eq_def] at h
  split at h
  · cases h
  · rename_i n' r heq
    cases heq
    split at h
    · cases h
    · rename_i item r₁ hitem
      obtain ⟨⟨items, r₂⟩, hitems, heq⟩ := Option.map_eq_some_iff.mp h
      cases heq
      obtain ⟨t₁, rfl, htame₁, hmore₁⟩ :=
        (ih.node true false).orEmpty endsLevelItem_alike empty hitem
      obtain ⟨t₂, rfl, htame₂, hmore₂⟩ := ih.levelItems hitems
      have htame := htame₁.append htame₂
      have hle := htame.weight_le
      refine ⟨.entry :: (t₁ ++ t₂), by simp, htame.cons (by simpa [Token.weight] using hle),
        fun m rest' hm halike => ?_⟩
      obtain ⟨m, rfl, hn⟩ := exists_succ hm
      have hitem' := hmore₁ hn (alike_append t₂ halike)
      dsimp only at hitem'
      simp only [List.cons_append, List.append_assoc, levelItems?, hitem', hmore₂ hn halike,
        Option.map_some]
  · rename_i n' hn' hentry
    cases hn'
    cases h
    refine ⟨[], rfl, tame_nil, fun m rest' hm halike => ?_⟩
    obtain ⟨m, rfl, hn⟩ := exists_succ hm
    rcases halike.forms with ⟨rfl, rfl⟩ | ⟨t, r, r', rfl, rfl⟩ | ⟨r, r', rfl, rfl⟩
    · rfl
    · rw [List.nil_append, levelItems?]
      rintro r'' heq
      cases heq
      exact hentry _ rfl
    · rfl

/-! ### Flow collections -/

/-- A mark that is no block mark is seen alike. -/
theorem any_head?_alike {p : Token → Bool} (hp : p .key = p .blockEnd) (h : Alike rest rest') :
    rest'.head?.any p = rest.head?.any p := by
  rcases h.forms with ⟨rfl, rfl⟩ | ⟨t, r, r', rfl, rfl⟩ | ⟨r, r', rfl, rfl⟩
  · rfl
  · rfl
  · exact hp

/-- Whether the key or value of a pair of a flow mapping is missing. -/
def endsFlowPair (tokens : List Token) : Bool :=
  tokens.head?.any fun t => t == .separator || t == .flowMappingEnd

theorem flowValue?_value (m : Nat) (r : List Token) : flowValue? handles (m + 1) (.value :: r) =
    if endsFlowPair r then some (empty, r) else node? handles m false false r := by
  rw [flowValue?.eq_def]
  rcases r with _ | ⟨t, r⟩
  · rfl
  · cases t <;> rfl

theorem Local.flowValue_succ (ih : Local handles n) : Reads (flowValue? handles) (n + 1) := by
  intro tokens x rest h
  by_cases hvalue : tokens.head? = some .value
  · obtain ⟨r, rfl⟩ := List.head?_eq_some_iff.mp hvalue
    rw [flowValue?_value] at h
    obtain ⟨t₁, rfl, htame, hmore⟩ :=
      (ih.node false false).orEmpty (any_head?_alike rfl) empty h
    have hle := htame.weight_le
    refine ⟨.value :: t₁, rfl, htame.cons (by simpa [Token.weight] using hle),
      fun m rest' hm halike => ?_⟩
    obtain ⟨m, rfl, hn⟩ := exists_succ hm
    rw [List.cons_append, flowValue?_value]
    exact hmore hn halike
  rw [flowValue?.eq_def] at h
  split at h
  · cases h
  · exact absurd rfl hvalue
  · rename_i n' hn' hother
    cases hn'
    cases h
    refine ⟨[], rfl, tame_nil, fun m rest' hm halike => ?_⟩
    obtain ⟨m, rfl, hn⟩ := exists_succ hm
    rcases halike.forms with ⟨rfl, rfl⟩ | ⟨t, r, r', rfl, rfl⟩ | ⟨r, r', rfl, rfl⟩
    · rfl
    · rw [List.nil_append, flowValue?]
      rintro r'' heq
      cases heq
      exact hother _ rfl
    · rfl

/-- Whether the key of a pair of a flow mapping is missing. -/
def endsFlowKey (tokens : List Token) : Bool :=
  tokens.head?.any fun t => t == .value || t == .separator || t == .flowMappingEnd

theorem flowKey?_succ (m : Nat) (r : List Token) : flowKey? handles (m + 1) r =
    if endsFlowKey r then some (empty, r) else node? handles m false false r := by
  rw [flowKey?.eq_def]
  rcases r with _ | ⟨t, r⟩
  · rfl
  · cases t <;> rfl

theorem Local.flowKey_succ (ih : Local handles n) : Reads (flowKey? handles) (n + 1) := by
  intro tokens x rest h
  rw [flowKey?_succ] at h
  obtain ⟨t₁, rfl, htame, hmore⟩ := (ih.node false false).orEmpty (any_head?_alike rfl) empty h
  refine ⟨t₁, rfl, htame, fun m rest' hm halike => ?_⟩
  obtain ⟨m, rfl, hn⟩ := exists_succ hm
  rw [flowKey?_succ]
  exact hmore hn halike

/-- The key of a pair in a flow sequence; where it is missing, a token is
    passed over. -/
def itemKey? (handles : Handles) (m : Nat) (tokens : List Token) :
    Option (NamedNode × List Token) :=
  if tokens.head?.any fun t => t == .value || t == .separator || t == .flowSequenceEnd then
    some (empty, tokens.drop 1)
  else node? handles m false false tokens

/-- The value of a pair in a flow sequence, if one is written. -/
def itemValue? (handles : Handles) (m : Nat) (tokens : List Token) :
    Option (NamedNode × List Token) :=
  if tokens.head? == some .value then
    if (tokens.drop 1).head?.any fun t => t == .separator || t == .flowSequenceEnd then
      some (empty, tokens.drop 1)
    else node? handles m false false (tokens.drop 1)
  else some (empty, tokens)

/-- What is read behind the key of a pair. -/
theorem pairTail_eq (m : Nat) (key? : Option (NamedNode × List Token)) :
    (match key? with
      | .none => .none
      | some (key, .value :: rest) =>
        match rest with
        | .separator :: _ => some ((key, empty), rest)
        | .flowSequenceEnd :: _ => some ((key, empty), rest)
        | rest => (node? handles m false false rest).map fun (value, rest) => ((key, value), rest)
      | some (key, rest) => some ((key, empty), rest)) =
    key?.bind fun (key, r) => (itemValue? handles m r).map fun (value, r) => ((key, value), r) := by
  rcases key? with _ | ⟨key, _ | ⟨t, r⟩⟩
  · rfl
  · rfl
  · cases t
    case value =>
      rcases r with _ | ⟨t, r⟩
      · rfl
      · cases t <;> rfl
    all_goals rfl

theorem flowPair?_succ (m : Nat) (tokens : List Token) :
    flowPair? handles (m + 1) tokens =
      (itemKey? handles m tokens).bind fun (key, r) =>
        (itemValue? handles m r).map fun (value, r) => ((key, value), r) := by
  rw [flowPair?.eq_def]
  rcases tokens with _ | ⟨t, r⟩
  · exact pairTail_eq m _
  · cases t <;> exact pairTail_eq m _

theorem Local.itemKey (ih : Local handles n) : Reads (itemKey? handles) n := by
  intro tokens x rest h
  rw [itemKey?] at h
  split at h
  · rename_i hmark
    cases h
    cases tokens with
    | nil => cases hmark
    | cons t r =>
      have hpassed : (t == .value || t == .separator || t == .flowSequenceEnd) = true := hmark
      have hweight : t.weight ≤ 0 := by
        cases t <;> first | exact Int.le_refl _ | decide | cases hpassed
      refine ⟨[t], rfl, tame_nil.cons (by simpa using hweight), fun m rest' _ _ => ?_⟩
      exact if_pos hpassed
  · rename_i hmark
    obtain ⟨taken, rfl, htame, hmore⟩ := ih.node false false h
    refine ⟨taken, rfl, htame, fun m rest' hm halike => ?_⟩
    rw [itemKey?, any_head?_alike rfl (alike_append taken halike), if_neg hmark]
    exact hmore hm halike

theorem Local.itemValue (ih : Local handles n) : Reads (itemValue? handles) n := by
  intro tokens x rest h
  rw [itemValue?] at h
  split at h
  · rename_i hmark
    obtain ⟨r, rfl⟩ := List.head?_eq_some_iff.mp (by simpa using hmark)
    obtain ⟨t₁, heq, htame, hmore⟩ :=
      (ih.node false false).orEmpty (any_head?_alike rfl) empty h
    obtain rfl : r = t₁ ++ rest := heq
    have hle := htame.weight_le
    refine ⟨.value :: t₁, rfl, htame.cons (by simpa [Token.weight] using hle),
      fun m rest' hm halike => ?_⟩
    exact hmore hm halike
  · rename_i hmark
    cases h
    refine ⟨[], rfl, tame_nil, fun m rest' hm halike => ?_⟩
    have hmark' : ¬ (rest'.head? == some .value) = true := by
      rcases halike.forms with ⟨rfl, rfl⟩ | ⟨t, r, r', rfl, rfl⟩ | ⟨r, r', rfl, rfl⟩
      · exact hmark
      · exact hmark
      · exact Bool.false_ne_true
    exact if_neg hmark'

theorem Local.flowPair_succ (ih : Local handles n) : Reads (flowPair? handles) (n + 1) := by
  intro tokens x rest h
  rw [flowPair?_succ] at h
  obtain ⟨⟨key, r₁⟩, hkey, h⟩ := Option.bind_eq_some_iff.mp h
  obtain ⟨⟨value, r₂⟩, hvalue, heq⟩ := Option.map_eq_some_iff.mp h
  cases heq
  obtain ⟨t₁, rfl, htame₁, hmore₁⟩ := ih.itemKey hkey
  obtain ⟨t₂, rfl, htame₂, hmore₂⟩ := ih.itemValue hvalue
  refine ⟨t₁ ++ t₂, by simp, htame₁.append htame₂, fun m rest' hm halike => ?_⟩
  obtain ⟨m, rfl, hn⟩ := exists_succ hm
  simp only [List.append_assoc, flowPair?_succ, hmore₁ hn (alike_append t₂ halike),
    hmore₂ hn halike, Option.bind_some, Option.map_some]

/-- A reader of a flow collection: items with commas between them up to its
    bracket. -/
structure IsFlow {β : Type} (f : Nat → Bool → List Token → Option (List β × List Token))
    (item : Nat → List Token → Option (β × List Token)) (mark : Token) : Prop where
  weight : mark.weight = -1
  finish : ∀ m first r, f (m + 1) first (mark :: r) = some ([], r)
  separator : ∀ m r, f (m + 1) false (.separator :: r) = f (m + 1) true r
  stuck : ∀ m r, r.head? ≠ some mark → r.head? ≠ some .separator → f (m + 1) false r = none
  item : ∀ m r, r.head? ≠ some mark → f (m + 1) true r =
    (item m r).bind fun (x, r) => (f m false r).map fun (xs, r) => (x :: xs, r)

section IsFlow

variable {β : Type} {f : Nat → Bool → List Token → Option (List β × List Token)}
  {item : Nat → List Token → Option (β × List Token)} {mark : Token}

/-- The bracket alone ends a flow collection. -/
theorem IsFlow.closes_mark (hf : IsFlow f item mark) {first : Bool} {r : List Token} {x : List β}
    (h : f (n + 1) first (mark :: r) = some (x, rest)) :
    ∃ taken, mark :: r = taken ++ rest ∧ taken.getLast? = some mark ∧ Tame taken ∧
      Yaml.weight taken ≤ -1 ∧
      ∀ ⦃m rest'⦄, n + 1 ≤ m → f m first (taken ++ rest') = some (x, rest') := by
  rw [hf.finish] at h
  cases h
  have hweight := hf.weight
  refine ⟨[mark], rfl, rfl, tame_nil.cons ?_, ?_, fun m rest' hm => ?_⟩
  · rw [hweight]
    decide
  · rw [weight_cons, hweight]
    decide
  · obtain ⟨m, rfl, -⟩ := exists_succ hm
    exact hf.finish m first rest'

/-- Where an item may stand, what is read ends with the bracket. -/
theorem IsFlow.closes_item (hf : IsFlow f item mark) (hitem : Reads item n)
    (ih : Closes 1 mark (fun m => f m false) n) : Closes 1 mark (fun m => f m true) (n + 1) := by
  intro tokens x rest h
  dsimp only at h
  by_cases hmark : tokens.head? = some mark
  · obtain ⟨r, rfl⟩ := List.head?_eq_some_iff.mp hmark
    exact hf.closes_mark h
  · rw [hf.item n tokens hmark] at h
    obtain ⟨⟨y, r₁⟩, hread, h⟩ := Option.bind_eq_some_iff.mp h
    obtain ⟨⟨ys, r₂⟩, hlater, heq⟩ := Option.map_eq_some_iff.mp h
    cases heq
    obtain ⟨t₁, rfl, htame₁, hmore₁⟩ := hitem hread
    obtain ⟨t₂, rfl, hlast, htame₂, hweight, hmore₂⟩ := ih hlater
    have hne := ne_nil_of_getLast? hlast
    have hle : Yaml.weight (t₁ ++ t₂) ≤ -1 := by
      have hle₁ := htame₁.weight_le
      rw [weight_append]
      omega
    have hne' : t₁ ++ t₂ ≠ [] := by simp [hne]
    refine ⟨t₁ ++ t₂, by simp, by simp [hlast], htame₁.append htame₂, hle, fun m rest' hm => ?_⟩
    obtain ⟨m, rfl, hn⟩ := exists_succ hm
    have hlater' : f m false (t₂ ++ rest') = _ := hmore₂ hn
    -- the first token of the item is the same
    have hmark' : (t₁ ++ (t₂ ++ rest')).head? ≠ some mark := by
      rw [← List.append_assoc, List.head?_append_of_ne_nil _ hne'] at hmark ⊢
      exact hmark
    show f (m + 1) true _ = _
    simp only [List.append_assoc, hf.item m _ hmark', hmore₁ hn (alike_of_ne_nil hne rest rest'),
      hlater', Option.bind_some, Option.map_some]

theorem IsFlow.closes (hf : IsFlow f item mark) (hitem : Reads item n)
    (ih : Closes 1 mark (fun m => f m false) n) (first : Bool) :
    Closes 1 mark (fun m => f m first) (n + 1) := by
  intro tokens x rest h
  cases first with
  | true => exact hf.closes_item hitem ih h
  | false =>
    dsimp only at h
    by_cases hmark : tokens.head? = some mark
    · obtain ⟨r, rfl⟩ := List.head?_eq_some_iff.mp hmark
      exact hf.closes_mark h
    by_cases hseparator : tokens.head? = some .separator
    · obtain ⟨r, rfl⟩ := List.head?_eq_some_iff.mp hseparator
      rw [hf.separator] at h
      obtain ⟨taken, rfl, hlast, htame, hweight, hmore⟩ := hf.closes_item hitem ih h
      refine ⟨.separator :: taken, rfl, by simp [List.getLast?_cons, hlast],
        htame.cons (by simpa [Token.weight] using htame.weight_le),
        by simpa [Token.weight] using hweight, fun m rest' hm => ?_⟩
      obtain ⟨m, rfl, hn⟩ := exists_succ hm
      show f (m + 1) false _ = _
      rw [List.cons_append, hf.separator]
      exact hmore hm
    · rw [hf.stuck n tokens hmark hseparator] at h
      cases h

end IsFlow

/-- An item of a flow sequence: a pair behind a key mark, or a node. -/
def flowItem? (handles : Handles) (m : Nat) (tokens : List Token) :
    Option (NamedNode × List Token) :=
  if tokens.head? == some .key then
    (flowPair? handles m (tokens.drop 1)).map fun (pair, r) => (.mapping .none [pair], r)
  else node? handles m false false tokens

/-- An entry of a flow mapping: a pair behind a key mark, or a key alone. -/
def flowMember? (handles : Handles) (m : Nat) (tokens : List Token) :
    Option ((NamedNode × NamedNode) × List Token) :=
  if tokens.head? == some .key then
    (flowKey? handles m (tokens.drop 1)).bind fun (key, r) =>
      (flowValue? handles m r).map fun (value, r) => ((key, value), r)
  else (node? handles m false false tokens).map fun (key, r) => ((key, empty), r)

theorem flowItem?_key (m : Nat) (rest : List Token) :
    flowItem? handles m (.key :: rest) =
      (flowPair? handles m rest).map fun (pair, r) => (.mapping .none [pair], r) := rfl

theorem flowMember?_key (m : Nat) (rest : List Token) :
    flowMember? handles m (.key :: rest) =
      (flowKey? handles m rest).bind fun (key, r) =>
        (flowValue? handles m r).map fun (value, r) => ((key, value), r) := rfl

/-- What is read behind a node of a flow sequence. -/
theorem itemTail_eq (m : Nat) (item? : Option (NamedNode × List Token)) :
    (match item? with
      | none => none
      | some (item, r) => (flowItems? handles m false r).map fun (items, r) => (item :: items, r)) =
    item?.bind fun (item, r) =>
      (flowItems? handles m false r).map fun (items, r) => (item :: items, r) := by
  rcases item? with _ | _ <;> rfl

/-- What is read behind a pair of a flow sequence. -/
theorem itemPairTail_eq (m : Nat) (pair? : Option ((NamedNode × NamedNode) × List Token)) :
    (match pair? with
      | none => none
      | some (pair, r) => (flowItems? handles m false r).map
          fun (items, r) => (.mapping .none [pair] :: items, r)) =
    (pair?.map fun (pair, r) => (Node.mapping .none [pair], r)).bind fun (item, r) =>
      (flowItems? handles m false r).map fun (items, r) => (item :: items, r) := by
  rcases pair? with _ | _ <;> rfl

theorem isFlow_flowItems? (handles : Handles) :
    IsFlow (flowItems? handles) (flowItem? handles) .flowSequenceEnd where
  weight := rfl
  finish m first r := by cases first <;> rfl
  separator m r := by
    rw [flowItems?.eq_def, flowItems?.eq_def]
    rcases r with _ | ⟨t, r⟩
    · rfl
    · cases t <;> rfl
  stuck m r hend hseparator := by
    rw [flowItems?.eq_def]
    rcases r with _ | ⟨t, r⟩
    · rfl
    · cases t <;> first | rfl | exact absurd rfl hend | exact absurd rfl hseparator
  item m r hend := by
    rw [flowItems?.eq_def]
    rcases r with _ | ⟨t, r⟩
    · exact itemTail_eq m _
    · cases t
      case key => exact itemPairTail_eq m _
      all_goals first | exact itemTail_eq m _ | exact absurd rfl hend

/-- What is read behind a key alone in a flow mapping. -/
theorem memberTail_eq (m : Nat) (key? : Option (NamedNode × List Token)) :
    (match key? with
      | none => none
      | some (key, r) => (flowPairs? handles m false r).map
          fun (pairs, r) => ((key, empty) :: pairs, r)) =
    (key?.map fun (key, r) => ((key, empty), r)).bind fun (pair, r) =>
      (flowPairs? handles m false r).map fun (pairs, r) => (pair :: pairs, r) := by
  rcases key? with _ | _ <;> rfl

/-- What is read behind a key with a mark in a flow mapping. -/
theorem memberPairTail_eq (m : Nat) (key? : Option (NamedNode × List Token)) :
    (match key? with
      | none => none
      | some (key, r) =>
        match flowValue? handles m r with
        | none => none
        | some (value, r) => (flowPairs? handles m false r).map
            fun (pairs, r) => ((key, value) :: pairs, r)) =
    (key?.bind fun (key, r) => (flowValue? handles m r).map
      fun (value, r) => ((key, value), r)).bind fun (pair, r) =>
        (flowPairs? handles m false r).map fun (pairs, r) => (pair :: pairs, r) := by
  rcases key? with _ | ⟨key, r⟩
  · rfl
  · dsimp only [Option.bind_some]
    cases flowValue? handles m r <;> rfl

theorem isFlow_flowPairs? (handles : Handles) :
    IsFlow (flowPairs? handles) (flowMember? handles) .flowMappingEnd where
  weight := rfl
  finish m first r := by cases first <;> rfl
  separator m r := by
    rw [flowPairs?.eq_def, flowPairs?.eq_def]
    rcases r with _ | ⟨t, r⟩
    · rfl
    · cases t <;> rfl
  stuck m r hend hseparator := by
    rw [flowPairs?.eq_def]
    rcases r with _ | ⟨t, r⟩
    · rfl
    · cases t <;> first | rfl | exact absurd rfl hend | exact absurd rfl hseparator
  item m r hend := by
    rw [flowPairs?.eq_def]
    rcases r with _ | ⟨t, r⟩
    · exact memberTail_eq m _
    · cases t
      case key => exact memberPairTail_eq m _
      all_goals first | exact memberTail_eq m _ | exact absurd rfl hend

theorem node?_blockEnd (n : Nat) (block level : Bool) (r : List Token) :
    node? handles n block level (.blockEnd :: r) = none := by
  cases n <;> rfl

/-- Where a node is read, no key mark stands, nor does one in its place. -/
theorem head?_ne_key {x : NamedNode}
    (h : node? handles n false false (taken ++ rest) = some (x, rest))
    (hmark : ¬ ((taken ++ rest).head? == some .key) = true) (halike : Alike rest rest') :
    ¬ ((taken ++ rest').head? == some .key) = true := by
  cases taken with
  | nil =>
    rcases halike.forms with ⟨rfl, rfl⟩ | ⟨t, r, r', rfl, rfl⟩ | ⟨r, r', rfl, rfl⟩
    · exact hmark
    · exact hmark
    · rw [List.nil_append, node?_blockEnd] at h
      cases h
  | cons t taken => exact hmark

theorem Local.flowItem (ih : Local handles n) : Reads (flowItem? handles) n := by
  intro tokens x rest h
  rw [flowItem?] at h
  split at h
  · rename_i hmark
    obtain ⟨r, rfl⟩ := List.head?_eq_some_iff.mp (by simpa using hmark)
    obtain ⟨⟨pair, r₁⟩, hpair, heq⟩ := Option.map_eq_some_iff.mp h
    cases heq
    obtain ⟨t₁, heq, htame, hmore⟩ := ih.flowPair hpair
    obtain rfl : r = t₁ ++ rest := heq
    have hle := htame.weight_le
    refine ⟨.key :: t₁, rfl, htame.cons (by simpa [Token.weight] using hle),
      fun m rest' hm halike => ?_⟩
    rw [List.cons_append, flowItem?_key, hmore hm halike, Option.map_some]
  · rename_i hmark
    obtain ⟨t₁, rfl, htame, hmore⟩ := ih.node false false h
    refine ⟨t₁, rfl, htame, fun m rest' hm halike => ?_⟩
    rw [flowItem?, if_neg (head?_ne_key h hmark halike)]
    exact hmore hm halike

theorem Local.flowMember (ih : Local handles n) : Reads (flowMember? handles) n := by
  intro tokens x rest h
  rw [flowMember?] at h
  split at h
  · rename_i hmark
    obtain ⟨r, rfl⟩ := List.head?_eq_some_iff.mp (by simpa using hmark)
    obtain ⟨⟨key, r₁⟩, hkey, h⟩ := Option.bind_eq_some_iff.mp h
    obtain ⟨⟨value, r₂⟩, hvalue, heq⟩ := Option.map_eq_some_iff.mp h
    cases heq
    obtain ⟨t₁, heq, htame₁, hmore₁⟩ := ih.flowKey hkey
    obtain ⟨t₂, rfl, htame₂, hmore₂⟩ := ih.flowValue hvalue
    obtain rfl : r = t₁ ++ (t₂ ++ rest) := heq
    have htame := htame₁.append htame₂
    have hle := htame.weight_le
    refine ⟨.key :: (t₁ ++ t₂), by simp, htame.cons (by simpa [Token.weight] using hle),
      fun m rest' hm halike => ?_⟩
    rw [List.cons_append, List.append_assoc, flowMember?_key, hmore₁ hm (alike_append t₂ halike)]
    simp only [Option.bind_some, hmore₂ hm halike, Option.map_some]
  · rename_i hmark
    obtain ⟨⟨key, r₁⟩, hkey, heq⟩ := Option.map_eq_some_iff.mp h
    cases heq
    obtain ⟨t₁, rfl, htame, hmore⟩ := ih.node false false hkey
    refine ⟨t₁, rfl, htame, fun m rest' hm halike => ?_⟩
    have hkey' : node? handles m false false (t₁ ++ rest') = _ := hmore hm halike
    rw [flowMember?, if_neg (head?_ne_key hkey hmark halike), hkey', Option.map_some]

/-! ### Nodes -/

/-- The properties of a node are read from their own tokens. -/
theorem properties?_alike {props : Properties (List Char)}
    (h : properties? handles tokens = some (props, rest)) :
    ∃ taken, tokens = taken ++ rest ∧ Tame taken ∧
      ∀ ⦃rest'⦄, Alike rest rest' → properties? handles (taken ++ rest') = some (props, rest') := by
  have hweight : ∀ {t : Token}, t.weight = 0 → Tame [t] := fun ht =>
    tame_nil.cons (by rw [ht, weight_nil]; decide)
  unfold properties? at h
  split at h
  · obtain ⟨tag, htag, heq⟩ := Option.map_eq_some_iff.mp h
    cases heq
    refine ⟨[.anchor _, .tag _ _], rfl, (hweight rfl).append (hweight rfl), fun rest' _ => ?_⟩
    rw [List.cons_append, List.singleton_append, properties?, htag, Option.map_some]
  · rename_i a r hother
    cases h
    refine ⟨[.anchor a], rfl, hweight rfl, fun rest' halike => ?_⟩
    rcases halike.forms with ⟨rfl, rfl⟩ | ⟨t, r, r', rfl, rfl⟩ | ⟨r, r', rfl, rfl⟩
    · rfl
    · cases t
      case tag handle suffix => exact (hother handle suffix _ rfl).elim
      all_goals rfl
    · rfl
  · obtain ⟨tag, htag, heq⟩ := Option.map_eq_some_iff.mp h
    cases heq
    refine ⟨[.tag _ _, .anchor _], rfl, (hweight rfl).append (hweight rfl), fun rest' _ => ?_⟩
    rw [List.cons_append, List.singleton_append, properties?, htag, Option.map_some]
  · rename_i handle suffix r hother
    obtain ⟨tag, htag, heq⟩ := Option.map_eq_some_iff.mp h
    cases heq
    refine ⟨[.tag handle suffix], rfl, hweight rfl, fun rest' halike => ?_⟩
    rcases halike.forms with ⟨rfl, rfl⟩ | ⟨t, r, r', rfl, rfl⟩ | ⟨r, r', rfl, rfl⟩
    · simp [properties?, htag]
    · cases t
      case anchor name => exact (hother name _ rfl).elim
      all_goals simp [properties?, htag]
    · simp [properties?, htag]
  · rename_i hanchorTag hanchor htagAnchor htag
    cases h
    refine ⟨[], rfl, tame_nil, fun rest' halike => ?_⟩
    rcases halike.forms with ⟨rfl, rfl⟩ | ⟨t, r, r', rfl, rfl⟩ | ⟨r, r', rfl, rfl⟩
    · rfl
    · cases t
      case anchor name => exact (hanchor _ _ rfl).elim
      case tag handle suffix => exact (htag _ _ _ rfl).elim
      all_goals rfl
    · rfl

theorem Alike.head?_ne_alias (h : Alike rest rest') {name : List Char}
    (hrest : rest.head? ≠ some (.alias name)) : rest'.head? ≠ some (.alias name) := by
  rcases h with hsame | ⟨-, hkey⟩
  · rwa [← hsame]
  · rw [hkey]
    simp

/-- A node of which only the properties are written. -/
def bare? (props : Properties (List Char)) (rest : List Token) : Option (NamedNode × List Token) :=
  if props == .none then none else some (.scalar props [] true, rest)

/-- Reads a node behind its properties. -/
def content? (handles : Handles) (m : Nat) (block level : Bool) (props : Properties (List Char)) :
    List Token → Option (NamedNode × List Token)
  | .scalar text plain :: rest => some (.scalar props text plain, rest)
  | .flowSequence :: rest =>
    (flowItems? handles m true rest).map fun (items, rest) => (.sequence props items, rest)
  | .flowMapping :: rest =>
    (flowPairs? handles m true rest).map fun (pairs, rest) => (.mapping props pairs, rest)
  | .entry :: rest =>
    if level then
      (levelItems? handles m (.entry :: rest)).map fun (items, rest) => (.sequence props items, rest)
    else bare? props (.entry :: rest)
  | .blockSequence :: rest =>
    if block then
      (items? handles m rest).map fun (items, rest) => (.sequence props items, rest)
    else bare? props (.blockSequence :: rest)
  | .blockMapping :: rest =>
    if block then
      (pairs? handles m rest).map fun (pairs, rest) => (.mapping props pairs, rest)
    else bare? props (.blockMapping :: rest)
  | rest => bare? props rest

theorem node?_alias (m : Nat) (block level : Bool) (name : List Char) (r : List Token) :
    node? handles (m + 1) block level (.alias name :: r) = some (.alias name, r) := rfl

theorem node?_succ (m : Nat) (block level : Bool) (h : ∀ name, tokens.head? ≠ some (.alias name)) :
    node? handles (m + 1) block level tokens =
      (properties? handles tokens).bind fun (props, r) => content? handles m block level props r := by
  rw [node?.eq_def]
  split
  · rename_i heq
    cases heq
  · exact absurd rfl (h _)
  · rename_i fuel heq hother
    cases heq
    generalize properties? handles _ = p
    rcases p with _ | ⟨props, _ | ⟨t, r⟩⟩
    · rfl
    · rfl
    · cases t <;> rfl

/-- Of a bare node, no token behind its properties is taken. -/
theorem content?_of_bare {block level : Bool} {props : Properties (List Char)} {x : NamedNode}
    (h : bare? props tokens = some (x, rest))
    (hsame : ∀ t r, tokens = t :: r → ∀ m r', content? handles m block level props (t :: r') =
      bare? props (t :: r')) :
    ∃ taken, tokens = taken ++ rest ∧ Tame taken ∧ ∀ ⦃m rest'⦄, n ≤ m → Alike rest rest' →
      content? handles m block level props (taken ++ rest') = some (x, rest') := by
  rw [bare?] at h
  split at h
  · cases h
  · rename_i hprops
    cases h
    refine ⟨[], rfl, tame_nil, fun m rest' _ halike => ?_⟩
    have hcontent : content? handles m block level props rest' = bare? props rest' := by
      rcases halike.forms with ⟨-, rfl⟩ | ⟨t, r, r', hr, rfl⟩ | ⟨r, r', -, rfl⟩
      · rfl
      · exact hsame t r hr m r'
      · rfl
    rw [List.nil_append, hcontent, bare?, if_neg hprops]

/-- A collection with an end mark is read from the token that opens it and its own. -/
theorem Closes.opened {β : Type} {k : Int} {mark : Token}
    {f : Nat → List Token → Option (α × List Token)}
    {g : Nat → List Token → Option (β × List Token)} {y : α → β} (hf : Closes k mark f n)
    (ht : t.weight ≤ k) (hg : ∀ m r, g m (t :: r) = (f m r).map fun (x, r) => (y x, r))
    {r : List Token} {x : β} (h : g n (t :: r) = some (x, rest)) :
    ∃ taken, t :: r = taken ++ rest ∧ Tame taken ∧ ∀ ⦃m rest'⦄, n ≤ m → Alike rest rest' →
      g m (taken ++ rest') = some (x, rest') := by
  rw [hg] at h
  obtain ⟨⟨items, r₁⟩, hread, heq⟩ := Option.map_eq_some_iff.mp h
  cases heq
  obtain ⟨t₁, rfl, -, htame, hweight, hmore⟩ := hf hread
  refine ⟨t :: t₁, rfl, htame.cons (by omega), fun m rest' hm _ => ?_⟩
  rw [List.cons_append, hg, hmore hm, Option.map_some]

/-- A first token other than an end mark stands there in both continuations. -/
theorem exists_cons_of_alike {r : List Token} (heq : t :: r = taken ++ rest)
    (ht : t ≠ .blockEnd) (h : Alike rest rest') : ∃ r', taken ++ rest' = t :: r' := by
  have halike := alike_append taken h
  rw [← heq] at halike
  rcases halike.forms with ⟨hr, -⟩ | ⟨t', r₁, r₂, hr, hr'⟩ | ⟨r₁, r₂, hr, -⟩
  · cases hr
  · cases hr
    exact ⟨r₂, hr'⟩
  · cases hr
    exact absurd rfl ht

theorem Local.content (ih : Local handles n) (block level : Bool) (props : Properties (List Char)) :
    Reads (fun m => content? handles m block level props) n := by
  intro tokens x rest h
  dsimp only at h
  rcases tokens with _ | ⟨t, r⟩
  · exact content?_of_bare h (by simp)
  · cases t
    case scalar text plain =>
      cases h
      exact ⟨[.scalar text plain], rfl, tame_nil.cons (by simp [Token.weight]), fun _ _ _ _ => rfl⟩
    case flowSequence =>
      exact (ih.flowItems true).opened (by decide)
        (g := fun m => content? handles m block level props) (fun _ _ => rfl) h
    case flowMapping =>
      exact (ih.flowPairs true).opened (by decide)
        (g := fun m => content? handles m block level props) (fun _ _ => rfl) h
    case entry =>
      cases level with
      | false => exact content?_of_bare h (by rintro _ _ ⟨⟩ m r'; rfl)
      | true =>
        obtain ⟨⟨items, r₁⟩, hitems, heq⟩ := Option.map_eq_some_iff.mp h
        cases heq
        obtain ⟨t₁, heq, htame, hmore⟩ := ih.levelItems hitems
        refine ⟨t₁, heq, htame, fun m rest' hm halike => ?_⟩
        obtain ⟨r', hr'⟩ := exists_cons_of_alike heq (by decide) halike
        have hitems' := hmore hm halike
        rw [hr'] at hitems' ⊢
        simp only [content?, if_true, hitems', Option.map_some]
    case blockSequence =>
      cases block with
      | false => exact content?_of_bare h (by rintro _ _ ⟨⟩ m r'; rfl)
      | true =>
        exact ih.items.opened (by decide)
          (g := fun m => content? handles m true level props) (fun _ _ => rfl) h
    case blockMapping =>
      cases block with
      | false => exact content?_of_bare h (by rintro _ _ ⟨⟩ m r'; rfl)
      | true =>
        exact ih.pairs.opened (by decide)
          (g := fun m => content? handles m true level props) (fun _ _ => rfl) h
    all_goals exact content?_of_bare h (by rintro _ _ ⟨⟩ m r'; rfl)

theorem Local.node_succ (ih : Local handles n) (block level : Bool) :
    Reads (fun m => node? handles m block level) (n + 1) := by
  intro tokens x rest h
  dsimp only at h
  by_cases halias : ∃ name, tokens.head? = some (.alias name)
  · obtain ⟨name, hname⟩ := halias
    obtain ⟨r, rfl⟩ := List.head?_eq_some_iff.mp hname
    rw [node?_alias] at h
    cases h
    refine ⟨[.alias name], rfl, tame_nil.cons (by simp [Token.weight]), fun m rest' hm _ => ?_⟩
    obtain ⟨m, rfl, -⟩ := exists_succ hm
    rfl
  · have hnot : ∀ name, tokens.head? ≠ some (.alias name) := fun name h => halias ⟨name, h⟩
    rw [node?_succ n block level hnot] at h
    obtain ⟨⟨props, r⟩, hprops, hcontent⟩ := Option.bind_eq_some_iff.mp h
    obtain ⟨t₁, rfl, htame₁, hmore₁⟩ := properties?_alike hprops
    obtain ⟨t₂, rfl, htame₂, hmore₂⟩ := ih.content block level props hcontent
    refine ⟨t₁ ++ t₂, by simp, htame₁.append htame₂, fun m rest' hm halike => ?_⟩
    obtain ⟨m, rfl, hn⟩ := exists_succ hm
    have hnot' : ∀ name, (t₁ ++ (t₂ ++ rest')).head? ≠ some (.alias name) := fun name =>
      (alike_append t₁ (alike_append t₂ halike)).head?_ne_alias (hnot name)
    have hcontent' : content? handles m block level props (t₂ ++ rest') = _ := hmore₂ hn halike
    show node? handles (m + 1) block level _ = _
    rw [List.append_assoc, node?_succ m block level hnot', hmore₁ (alike_append t₂ halike),
      Option.bind_some]
    exact hcontent'

theorem local_all (handles : Handles) (n : Nat) : Local handles n := by
  induction n with
  | zero => exact .zero handles
  | succ n ih =>
    exact ⟨ih.node_succ, ih.items_succ, ih.levelItems_succ, ih.pairs_succ, ih.pairValue_succ,
      (isFlow_flowItems? handles).closes ih.flowItem (ih.flowItems false), ih.flowPair_succ,
      (isFlow_flowPairs? handles).closes ih.flowMember (ih.flowPairs false), ih.flowKey_succ,
      ih.flowValue_succ⟩

end CompilerRemarks.Yaml.Node
