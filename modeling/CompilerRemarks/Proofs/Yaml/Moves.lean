/-
  CompilerRemarks.Proofs.Yaml.Moves

  What scanning does to the tokens, the blocks and the possible keys, said once
  as a list of moves that each step is made of. Three invariants follow from
  it: blocks stand further and further right (`Stacked`), the open brackets are
  those of the flow collections (`Deep`), and tokens before every possible key
  stay as they are (`Frozen`).
-/
import CompilerRemarks.Proofs.Yaml.Scan

namespace CompilerRemarks.Yaml

/-- How much deeper in flow collections a token leads. -/
def Token.weight : Token → Int
  | .flowSequence => 1
  | .flowMapping => 1
  | .flowSequenceEnd => -1
  | .flowMappingEnd => -1
  | _ => 0

/-- The brackets that tokens open, less those that they close. -/
def weight : List Token → Int
  | [] => 0
  | t :: tokens => t.weight + weight tokens

@[simp] theorem weight_nil : weight [] = 0 := rfl

@[simp] theorem weight_cons (t : Token) (tokens : List Token) :
    weight (t :: tokens) = t.weight + weight tokens := rfl

@[simp] theorem weight_append (tokens tokens' : List Token) :
    weight (tokens ++ tokens') = weight tokens + weight tokens' := by
  induction tokens with
  | nil => exact (Int.zero_add _).symm
  | cons t tokens ih => rw [List.cons_append, weight_cons, weight_cons, ih, Int.add_assoc]

@[simp] theorem weight_reverse (tokens : List Token) : weight tokens.reverse = weight tokens := by
  induction tokens with
  | nil => rfl
  | cons t tokens ih =>
    rw [List.reverse_cons, weight_append, ih, weight_cons, weight_cons, weight_nil]
    omega

namespace Scanner

/-- The moves that scanning is made of. -/
inductive Moves : Scanner → Scanner → Prop where
  | refl (s : Scanner) : Moves s s
  | trans {s t u : Scanner} (h : Moves s t) (h' : Moves t u) : Moves s u
  /-- Going on in the text, and forgetting keys. -/
  | wait {s t : Scanner} (h : s.Waits t) : Moves s t
  | push {s : Scanner} (mark : Token) (h : mark.weight = 0) : Moves s (s.push mark)
  /-- Marks are put in at the end or before the token of the possible key. -/
  | insert {s : Scanner} {number : Nat} {mark : Token} (h : mark.weight = 0)
      (hplace : number = s.tokens.length ∨ s.currentKey.any (·.number == number) = true) :
      Moves s (s.insertAt number mark)
  | indent {s : Scanner} {column : Int} (h : s.indent < column) :
      Moves s { s with indent := column, outer := s.indent :: s.outer }
  | dedent {s : Scanner} {enclosing : Int} {outer : List Int} (h : s.outer = enclosing :: outer) :
      Moves s { s with indent := enclosing, outer }
  | save {s : Scanner} {key : PossibleKey} (h : key.number = s.tokens.length) :
      Moves s (s.setKey (some key))
  | openFlow {s : Scanner} {mark : Token} (h : mark.weight = 1) :
      Moves s ({ s with flowKeys := none :: s.flowKeys }.push mark)
  | closeFlow {s : Scanner} {mark : Token} (h : mark.weight = -1) :
      Moves s ({ s with flowKeys := s.flowKeys.drop 1 }.push mark)

variable {s t u : Scanner} {c : Char} {tail : List Char}

/-! ## Steps as moves -/

theorem Waits.refl (s : Scanner) : s.Waits s :=
  ⟨rfl, rfl, rfl, .inr rfl, List.forall₂_same.mpr fun _ _ => .inr rfl⟩

/-- A change of place only. -/
theorem Moves.place (s : Scanner) (cursor : Cursor) (keyAllowed : Bool) :
    Moves s { s with cursor, keyAllowed } :=
  .wait ⟨rfl, rfl, rfl, .inr rfl, (Waits.refl s).flowKeys⟩

theorem waits_setKey (s : Scanner) : s.Waits (s.setKey none) := by
  obtain ⟨cursor, tokens, indent, outer, keyAllowed, flowKeys, blockKey⟩ := s
  cases flowKeys with
  | nil => exact ⟨rfl, rfl, rfl, .inl rfl, .nil⟩
  | cons key keys =>
    exact ⟨rfl, rfl, rfl, .inr rfl, .cons (.inl rfl) (List.forall₂_same.mpr fun _ _ => .inr rfl)⟩

theorem moves_dropKey? (h : s.dropKey? = some t) : Moves s t := by
  rcases eq_setKey_of_dropKey? h with ⟨rfl, -⟩ | rfl
  · exact .refl _
  · exact .wait (waits_setKey s)

theorem moves_saveKey? (h : s.saveKey? = some t) : Moves s t := by
  rw [saveKey?] at h
  split at h
  · obtain ⟨u, hu, rfl⟩ := Option.map_eq_some_iff.mp h
    exact (moves_dropKey? hu).trans (.save (by rw [tokens_of_dropKey? hu]))
  · cases h
    exact .refl _

theorem moves_closeFrom (column : Int) : ∀ {outer : List Int} {s : Scanner}, s.outer = outer →
    Moves s (closeFrom column outer s) := by
  intro outer
  induction outer with
  | nil => exact fun _ => .refl _
  | cons enclosing outer ih =>
    intro s hs
    rw [closeFrom]
    split
    · exact (Moves.push .blockEnd rfl).trans
        (Moves.trans (.dedent (s := s.push .blockEnd) hs)
          (ih (s := { (s.push .blockEnd) with indent := enclosing, outer }) rfl))
    · exact .refl _

theorem moves_closeBlocks (s : Scanner) (column : Int) : Moves s (s.closeBlocks column) := by
  rw [closeBlocks]
  split
  · exact .refl _
  · exact moves_closeFrom column rfl

theorem moves_openBlock {column number : Nat} {mark : Token} (h : mark.weight = 0)
    (hplace : number = s.tokens.length ∨ s.currentKey.any (·.number == number) = true) :
    Moves s (s.openBlock column number mark) := by
  rw [openBlock]
  split
  · rename_i hopen
    have hright : s.indent < Int.ofNat column := by simpa using (Bool.and_eq_true_iff.mp hopen).2
    exact (Moves.insert h hplace).trans (.indent (s := s.insertAt number mark) hright)
  · exact .refl _

theorem moves_reach? (h : s.reach? = some t) : Moves s t := by
  obtain ⟨u, hwaits, -, -, rfl⟩ := reach?_eq h
  exact (Moves.wait hwaits).trans (moves_closeBlocks u _)

theorem moves_openFlow? {mark : Token} (h : mark.weight = 1) (ht : s.openFlow? mark = some t) :
    Moves s t := by
  obtain ⟨u, hu, rfl⟩ := Option.map_eq_some_iff.mp ht
  exact (moves_saveKey? hu).trans ((Moves.openFlow h).trans (.place _ _ _))

theorem moves_closeFlow? {mark : Token} (h : mark.weight = -1) (ht : s.closeFlow? mark = some t) :
    Moves s t := by
  obtain ⟨u, hu, rfl⟩ := Option.map_eq_some_iff.mp ht
  exact (moves_dropKey? hu).trans ((Moves.closeFlow h).trans (.place _ _ _))

theorem moves_separator? (ht : s.separator? = some t) : Moves s t := by
  obtain ⟨u, hu, rfl⟩ := Option.map_eq_some_iff.mp ht
  exact (moves_dropKey? hu).trans ((Moves.push .separator rfl).trans (.place _ _ _))

theorem moves_entry? (ht : s.entry? = some t) : Moves s t := by
  rw [ entry?] at ht
  split at ht
  · cases ht
  · obtain ⟨u, hu, rfl⟩ := Option.map_eq_some_iff.mp ht
    exact (moves_openBlock rfl (.inl rfl)).trans ((moves_dropKey? hu).trans
      ((Moves.push .entry rfl).trans (.place _ _ _)))

theorem moves_complexKey? (ht : s.complexKey? = some t) : Moves s t := by
  rw [complexKey?] at ht
  split at ht
  · cases ht
  · obtain ⟨u, hu, rfl⟩ := Option.map_eq_some_iff.mp ht
    exact (moves_openBlock rfl (.inl rfl)).trans ((moves_dropKey? hu).trans
      ((Moves.push .key rfl).trans (.place _ _ _)))

theorem moves_value? (ht : s.value? = some t) : Moves s t := by
  rw [value?] at ht
  split at ht
  · rename_i key hkey
    cases ht
    have hplace : s.currentKey.any (·.number == key.number) = true := by simp [hkey]
    have hplace' : (s.insertAt key.number .key).currentKey.any (·.number == key.number) = true :=
      hplace
    exact (Moves.insert rfl (.inr hplace)).trans ((moves_openBlock rfl (.inr hplace')).trans
      ((Moves.wait (waits_setKey _)).trans ((Moves.push .value rfl).trans (.place _ _ _))))
  · split at ht
    · cases ht
    · cases ht
      exact (moves_openBlock rfl (.inl rfl)).trans
        ((Moves.push .value rfl).trans (.place _ _ _))

theorem moves_documentMark? {mark : Token} (h : mark.weight = 0)
    (ht : s.documentMark? mark = some t) : Moves s t := by
  obtain ⟨u, hu, rfl⟩ := Option.map_eq_some_iff.mp ht
  exact (moves_closeBlocks s _).trans ((moves_dropKey? hu).trans
    ((Moves.push _ h).trans (.place _ _ _)))

theorem weight_version? {cur next : Cursor} {mark : Token} (h : version? cur = some (mark, next)) :
    mark.weight = 0 := by
  rw [version?] at h
  split at h
  · cases h
  · split at h
    · obtain ⟨_, -, heq⟩ := Option.map_eq_some_iff.mp h
      cases heq
      rfl
    · cases h

theorem weight_tagShorthand? {cur next : Cursor} {mark : Token}
    (h : tagShorthand? cur = some (mark, next)) : mark.weight = 0 := by
  simp only [tagShorthand?] at h
  repeat' split at h
  all_goals cases h
  rfl

theorem weight_directive? {cur next : Cursor} {mark : Token}
    (h : directive? cur = some (mark, next)) : mark.weight = 0 := by
  simp only [directive?] at h
  split at h
  · cases h
  · split at h
    · cases h
    · rename_i hvalue
      obtain ⟨there, -, heq⟩ := Option.map_eq_some_iff.mp h
      cases heq
      split at hvalue
      · exact weight_version? hvalue
      · split at hvalue
        · exact weight_tagShorthand? hvalue
        · cases hvalue

theorem moves_directiveLine? (ht : s.directiveLine? = some t) : Moves s t := by
  rw [directiveLine?] at ht
  split at ht
  · cases ht
  · rename_i u hu
    obtain ⟨⟨mark, next⟩, hmark, rfl⟩ := Option.map_eq_some_iff.mp ht
    exact (moves_closeBlocks s _).trans ((moves_dropKey? hu).trans
      ((Moves.push _ (weight_directive? hmark)).trans (.place _ _ _)))

theorem moves_anchorOrAlias? {make : List Char → Token} (h : ∀ name, (make name).weight = 0)
    (ht : s.anchorOrAlias? make = some t) : Moves s t := by
  rw [anchorOrAlias?] at ht
  split at ht
  · cases ht
  · rename_i u hu
    obtain ⟨⟨name, next⟩, -, rfl⟩ := Option.map_eq_some_iff.mp ht
    exact (moves_saveKey? hu).trans ((Moves.push _ (h name)).trans (.place _ _ _))

theorem weight_tagToken? {flow : Bool} {cur next : Cursor} {mark : Token}
    (h : tagToken? flow cur = some (mark, next)) : mark.weight = 0 := by
  rw [tagToken?] at h
  split at h
  · cases h
  · split at h
    · cases h
      rfl
    · cases h

theorem moves_tag? (ht : s.tag? = some t) : Moves s t := by
  rw [tag?] at ht
  split at ht
  · cases ht
  · rename_i u hu
    obtain ⟨⟨mark, next⟩, hmark, rfl⟩ := Option.map_eq_some_iff.mp ht
    exact (moves_saveKey? hu).trans ((Moves.push _ (weight_tagToken? hmark)).trans (.place _ _ _))

theorem moves_block? {literal : Bool} (ht : s.block? literal = some t) : Moves s t := by
  rw [block?] at ht
  split at ht
  · cases ht
  · rename_i u hu
    obtain ⟨⟨text, next⟩, -, rfl⟩ := Option.map_eq_some_iff.mp ht
    exact (moves_dropKey? hu).trans ((Moves.push (.scalar text false) rfl).trans
      (.place _ _ _))

theorem moves_quote? {single : Bool} (ht : s.quote? single = some t) : Moves s t := by
  rw [quote?] at ht
  split at ht
  · cases ht
  · rename_i u hu
    obtain ⟨⟨text, next⟩, -, rfl⟩ := Option.map_eq_some_iff.mp ht
    exact (moves_saveKey? hu).trans ((Moves.push (.scalar text false) rfl).trans
      (.place _ _ _))

theorem moves_plain? (ht : s.plain? = some t) : Moves s t := by
  rw [plain?] at ht
  split at ht
  · cases ht
  · rename_i u hu
    obtain ⟨⟨text, broken, next⟩, -, rfl⟩ := Option.map_eq_some_iff.mp ht
    exact (moves_saveKey? hu).trans ((Moves.push (.scalar text true) rfl).trans
      (.place _ _ _))

/-- A choice is made of moves if each reading is. -/
theorem moves_ite {p : Prop} [Decidable p] {a b : Option Scanner} (hyes : a = some t → Moves s t)
    (hno : b = some t → Moves s t) : (if p then a else b) = some t → Moves s t := by
  split
  · exact hyes
  · exact hno

/-- Reading a token is made of moves. -/
theorem moves_token? (ht : s.token? c tail = some t) : Moves s t := by
  revert ht
  rw [token?]
  refine moves_ite moves_directiveLine? ?_
  refine moves_ite (moves_documentMark? rfl) ?_
  refine moves_ite (moves_documentMark? rfl) ?_
  refine moves_ite (moves_openFlow? rfl) ?_
  refine moves_ite (moves_openFlow? rfl) ?_
  refine moves_ite (moves_closeFlow? rfl) ?_
  refine moves_ite (moves_closeFlow? rfl) ?_
  refine moves_ite moves_separator? ?_
  refine moves_ite moves_entry? ?_
  refine moves_ite moves_complexKey? ?_
  refine moves_ite moves_value? ?_
  refine moves_ite (moves_anchorOrAlias? fun _ => rfl) ?_
  refine moves_ite (moves_anchorOrAlias? fun _ => rfl) ?_
  refine moves_ite moves_tag? ?_
  refine moves_ite moves_block? ?_
  refine moves_ite moves_block? ?_
  refine moves_ite moves_quote? ?_
  refine moves_ite moves_quote? ?_
  refine moves_ite moves_plain? ?_
  intro ht
  cases ht

theorem Steps.moves (h : Steps s t) : Moves s t := by
  induction h with
  | refl s => exact .refl s
  | head hreach hrest hnext _ ih =>
    exact (moves_reach? hreach).trans ((moves_token? hnext).trans ih)

/-! ## Blocks -/

/-- Columns of blocks, the innermost first: each stands right of the one around
    it, and all inside the column `-1` of the stream. -/
inductive Stacked : Int → List Int → Prop where
  | stream : Stacked (-1) []
  | block {column enclosing : Int} {outer : List Int} (h : Stacked enclosing outer)
      (hright : enclosing < column) : Stacked column (enclosing :: outer)

theorem Stacked.neg_one_le {column : Int} {outer : List Int} (h : Stacked column outer) :
    -1 ≤ column := by
  induction h with
  | stream => exact Int.le_refl _
  | block _ hright ih => omega

theorem Stacked.eq_of_nil {column : Int} (h : Stacked column []) : column = -1 := by
  cases h
  rfl

theorem Stacked.enclosing {column enclosing : Int} {outer : List Int}
    (h : Stacked column (enclosing :: outer)) : Stacked enclosing outer ∧ enclosing < column := by
  cases h with
  | block h hright => exact ⟨h, hright⟩

/-- Setting a possible key leaves the tokens, the blocks and the number of flow
    collections. -/
theorem setKey_eq (s : Scanner) (key : Option PossibleKey) : ∃ flowKeys blockKey,
    s.setKey key = { s with flowKeys, blockKey } ∧ flowKeys.length = s.flowKeys.length := by
  obtain ⟨cursor, tokens, indent, outer, keyAllowed, flowKeys, blockKey⟩ := s
  cases flowKeys with
  | nil => exact ⟨[], key, rfl, rfl⟩
  | cons _ keys => exact ⟨key :: keys, blockKey, rfl, rfl⟩

theorem Moves.stacked (h : Moves s t) (hs : Stacked s.indent s.outer) :
    Stacked t.indent t.outer := by
  induction h with
  | refl _ => exact hs
  | trans _ _ ih ih' => exact ih' (ih hs)
  | wait h => rwa [h.indent, h.outer]
  | push _ _ => exact hs
  | insert _ _ => exact hs
  | indent h => exact .block hs h
  | dedent h =>
    rw [h] at hs
    exact hs.enclosing.1
  | @save s key _ =>
    obtain ⟨flowKeys, blockKey, heq, -⟩ := s.setKey_eq (some key)
    rwa [heq]
  | openFlow _ => exact hs
  | closeFlow _ => exact hs

/-- Closing the blocks right of a column leaves those up to it. -/
theorem Stacked.indent_closeFrom {column : Int} (hcolumn : -1 ≤ column) : ∀ {outer : List Int}
    {s : Scanner}, Stacked s.indent outer → s.outer = outer →
      (closeFrom column outer s).indent ≤ column := by
  intro outer
  induction outer with
  | nil =>
    intro s h _
    rw [closeFrom, h.eq_of_nil]
    exact hcolumn
  | cons enclosing outer ih =>
    intro s h hs
    rw [closeFrom]
    split
    · exact ih (s := { (s.push .blockEnd) with indent := enclosing, outer }) h.enclosing.1 rfl
    · rename_i hright
      exact Int.not_lt.mp hright

/-! ## Flow collections -/

/-- The open brackets are those of the flow collections: from some token on, as
    many brackets stay open as there are flow collections. -/
def Deep (s : Scanner) : Prop :=
  ∃ later before, s.tokens = later ++ before ∧ weight later = s.flowKeys.length

theorem weight_insert {mark : Token} (h : mark.weight = 0) (n : Nat) (tokens : List Token) :
    weight (tokens.take n ++ mark :: tokens.drop n) = weight tokens := by
  rw [weight_append, weight_cons, h, Int.zero_add, ← weight_append, List.take_append_drop]

theorem Moves.deep (h : Moves s t) (hs : s.Deep) : t.Deep := by
  induction h with
  | refl _ => exact hs
  | trans _ _ ih ih' => exact ih' (ih hs)
  | wait h =>
    obtain ⟨later, before, htokens, hsum⟩ := hs
    exact ⟨later, before, h.tokens.trans htokens, by rw [hsum, h.flowKeys.length_eq]⟩
  | @push s mark h =>
    obtain ⟨later, before, htokens, hsum⟩ := hs
    refine ⟨mark :: later, before, congrArg (mark :: ·) htokens, ?_⟩
    rw [weight_cons, h, Int.zero_add]
    exact hsum
  | @insert s number mark h hplace =>
    obtain ⟨later, before, htokens, hsum⟩ := hs
    obtain ⟨n, hn⟩ : ∃ n, n = s.tokens.length - number := ⟨_, rfl⟩
    have hinsert : (s.insertAt number mark).tokens = s.tokens.take n ++ mark :: s.tokens.drop n := by
      rw [hn]
      rfl
    by_cases hlater : n ≤ later.length
    · refine ⟨later.take n ++ mark :: later.drop n, before, ?_, ?_⟩
      · rw [hinsert, htokens, List.take_append_of_le_length hlater,
          List.drop_append_of_le_length hlater, List.append_assoc, List.cons_append]
      · rw [weight_insert h]
        exact hsum
    · -- the mark is put in among the tokens before
      refine ⟨later, before.take (n - later.length) ++ mark :: before.drop (n - later.length), ?_,
        hsum⟩
      rw [hinsert, htokens, List.take_append, List.drop_append,
        List.take_of_length_le (Nat.le_of_not_le hlater),
        List.drop_of_length_le (Nat.le_of_not_le hlater), List.nil_append, List.append_assoc]
  | indent _ => exact hs
  | dedent _ => exact hs
  | @save s key _ =>
    obtain ⟨flowKeys, blockKey, heq, hlength⟩ := s.setKey_eq (some key)
    obtain ⟨later, before, htokens, hsum⟩ := hs
    rw [heq]
    exact ⟨later, before, htokens, by rw [hsum, hlength]⟩
  | @openFlow s mark h =>
    obtain ⟨later, before, htokens, hsum⟩ := hs
    refine ⟨mark :: later, before, congrArg (mark :: ·) htokens, ?_⟩
    show weight (mark :: later) = ((s.flowKeys.length + 1 : Nat) : Int)
    rw [weight_cons, h, hsum]
    omega
  | @closeFlow s mark h =>
    obtain ⟨later, before, htokens, hsum⟩ := hs
    cases hkeys : s.flowKeys with
    | nil => exact ⟨[], mark :: s.tokens, rfl, rfl⟩
    | cons key keys =>
      refine ⟨mark :: later, before, congrArg (mark :: ·) htokens, ?_⟩
      show weight (mark :: later) = (keys.length : Int)
      rw [weight_cons, h, hsum, hkeys, List.length_cons]
      omega

/-! ## Tokens that stay -/

/-- The first tokens are these and stay so: no possible key stands before their end. -/
def Frozen (base : List Token) (s : Scanner) : Prop :=
  base <:+ s.tokens ∧ (∀ key, s.blockKey = some key → base.length ≤ key.number) ∧
    ∀ key, some key ∈ s.flowKeys → base.length ≤ key.number

variable {base : List Token}

theorem Frozen.le_of_currentKey (h : s.Frozen base) {key : PossibleKey}
    (hkey : s.currentKey = some key) : base.length ≤ key.number := by
  rw [currentKey] at hkey
  split at hkey
  · rename_i hkeys
    exact h.2.2 key (by rw [hkeys, hkey]; exact List.mem_cons_self)
  · exact h.2.1 key hkey

theorem Frozen.setKey (h : s.Frozen base) {key : Option PossibleKey}
    (hkey : ∀ k, key = some k → base.length ≤ k.number) : (s.setKey key).Frozen base := by
  obtain ⟨cursor, tokens, indent, outer, keyAllowed, flowKeys, blockKey⟩ := s
  cases flowKeys with
  | nil => exact ⟨h.1, hkey, h.2.2⟩
  | cons _ keys =>
    refine ⟨h.1, h.2.1, fun k hk => ?_⟩
    rcases List.mem_cons.mp hk with hk | hk
    · exact hkey k hk.symm
    · exact h.2.2 k (List.mem_cons_of_mem _ hk)

/-- No possible key appears where some were forgotten. -/
theorem mem_of_forgotten {keys keys' : List (Option PossibleKey)} {key : PossibleKey}
    (h : List.Forall₂ (fun k k' => k' = none ∨ k' = k) keys keys') (hkey : some key ∈ keys') :
    some key ∈ keys := by
  induction h with
  | nil => cases hkey
  | cons hsame _ ih =>
    rcases List.mem_cons.mp hkey with rfl | hkey
    · rw [hsame.resolve_left (by simp)]
      exact List.mem_cons_self
    · exact List.mem_cons_of_mem _ (ih hkey)

theorem Moves.frozen (h : Moves s t) (hs : s.Frozen base) : t.Frozen base := by
  induction h with
  | refl _ => exact hs
  | trans _ _ ih ih' => exact ih' (ih hs)
  | wait h =>
    refine ⟨h.tokens ▸ hs.1, fun key hkey => ?_, fun key hkey => ?_⟩
    · rcases h.blockKey with hnone | hsame
      · rw [hnone] at hkey
        cases hkey
      · exact hs.2.1 key (hsame ▸ hkey)
    · exact hs.2.2 key (mem_of_forgotten h.flowKeys hkey)
  | push _ _ => exact ⟨hs.1.trans (List.suffix_cons _ _), hs.2⟩
  | @insert s number mark _ hplace =>
    have hle : base.length ≤ number := by
      rcases hplace with rfl | hplace
      · exact hs.1.length_le
      · cases hkey : s.currentKey with
        | none => simp [hkey] at hplace
        | some key =>
          obtain rfl : key.number = number := by simpa [hkey] using hplace
          exact hs.le_of_currentKey hkey
    obtain ⟨later, htokens⟩ := hs.1
    have hn : s.tokens.length - number ≤ later.length := by
      rw [← htokens, List.length_append]
      omega
    have hdrop : base <:+ s.tokens.drop (s.tokens.length - number) := by
      rw [← htokens, List.drop_append_of_le_length (by rwa [← htokens] at hn)]
      exact List.suffix_append _ _
    exact ⟨hdrop.trans ((List.suffix_cons _ _).trans (List.suffix_append _ _)), hs.2⟩
  | indent _ => exact hs
  | dedent _ => exact hs
  | save h => exact hs.setKey fun k hk => by cases hk; rw [h]; exact hs.1.length_le
  | openFlow _ =>
    refine ⟨hs.1.trans (List.suffix_cons _ _), hs.2.1, fun key hkey => ?_⟩
    exact hs.2.2 key ((List.mem_cons.mp hkey).resolve_left (by simp))
  | closeFlow _ =>
    exact ⟨hs.1.trans (List.suffix_cons _ _), hs.2.1,
      fun key hkey => hs.2.2 key (List.mem_of_mem_drop hkey)⟩

end Scanner

end CompilerRemarks.Yaml
