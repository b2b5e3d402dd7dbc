/-
  CompilerRemarks.Proofs.Yaml.Root

  The tokens of a stream with one document whose root is a mapping. They end
  where the mapping does, so that nothing can follow it without a marker; and
  where the mapping is a block, it goes on with the pairs that follow instead
  of its end.
-/
import CompilerRemarks.Proofs.Yaml.Node

namespace CompilerRemarks.Yaml.Node

variable {handles : Handles} {n : Nat} {tokens rest : List Token}

/-! ## Documents -/

/-- The first document, which may do without a marker. -/
def first? (tokens : List Token) : Option (NamedNode × List Token) :=
  if tokens.head?.any fun t => match t with
      | .version .. => true
      | .tagShorthand .. => true
      | .documentStart => true
      | _ => false
  then explicit? tokens
  else node? standardHandles (4 * tokens.length + 8) true false tokens

theorem isAll_documents_false (m : Nat) : ∀ tokens, (documents false m tokens).isAll = false := by
  induction m with
  | zero => exact fun _ => rfl
  | succ m ih =>
    intro tokens
    rw [documents]
    split
    · rfl
    · split
      · rfl
      · rename_i node rest hread
        rw [counting]
        split
        · exact ih rest
        · rfl

theorem documents_true_eq_nil {m : Nat} (h : documents true m tokens = ⟨[], true⟩) :
    tokens.dropWhile (· == .documentEnd) = [] := by
  cases m with
  | zero => cases h
  | succ m =>
    rw [documents] at h
    split at h
    · assumption
    · split at h
      · cases h
      · cases h

theorem ofTokens_cons (t : Token) (r : List Token) (isAll : Bool) :
    ofTokens ⟨t :: r, isAll⟩ = match first? (t :: r) with
      | none => .broken
      | some (node, rest) => counting isAll node rest (documents isAll (rest.length + 1) rest) := by
  cases t <;> rfl

theorem eq_of_all? {α : Type} {l : Leading α} {items : List α} (h : l.all? = some items) :
    l = ⟨items, true⟩ := by
  obtain ⟨read, isAll⟩ := l
  cases isAll <;> cases h
  rfl

/-- A stream with one document is all scanned, and only end marks follow the
    document. -/
theorem first?_of_single {tokens : Leading Token} {node : NamedNode}
    (h : (ofTokens tokens).all? = some [node]) :
    tokens.isAll = true ∧ ∃ rest, first? tokens.items = some (node, rest) ∧
      rest.dropWhile (· == .documentEnd) = [] := by
  obtain ⟨_ | ⟨t, r⟩, isAll⟩ := tokens
  · cases isAll <;> cases h
  · rw [ofTokens_cons] at h
    split at h
    · cases h
    · rename_i read rest hfirst
      have hall := eq_of_all? h
      cases isAll with
      | false =>
        rw [counting] at hall
        split at hall
        · have hlater := congrArg Leading.isAll hall
          rw [Leading.cons, isAll_documents_false] at hlater
          cases hlater
        · cases hall
      | true =>
        rw [counting, Bool.true_or, if_pos rfl, Leading.cons, Leading.mk.injEq, List.cons.injEq]
          at hall
        obtain ⟨⟨rfl, hitems⟩, hlater⟩ := hall
        refine ⟨rfl, rest, hfirst, documents_true_eq_nil (m := rest.length + 1) ?_⟩
        generalize documents true (rest.length + 1) rest = later at hitems hlater ⊢
        obtain ⟨items, all⟩ := later
        cases hitems
        cases hlater
        rfl

/-! ## Where a document starts -/

/-- Directives are read from their own tokens, up to the marker. -/
theorem directives?_append : ∀ {tokens : List Token} {versioned : Bool} {handles handles' : Handles},
    directives? versioned handles tokens = some (handles', .documentStart :: rest) →
    ∃ taken, tokens = taken ++ .documentStart :: rest ∧ Tame taken ∧
      ∀ rest', directives? versioned handles (taken ++ .documentStart :: rest') =
        some (handles', .documentStart :: rest') := by
  intro tokens
  induction tokens with
  | nil =>
    intro versioned handles handles' h
    cases h
  | cons t r ih =>
    intro versioned handles handles' h
    have hcons : ∀ {t : Token} {taken : List Token}, t.weight = 0 → Tame taken →
        Tame (t :: taken) :=
      fun ht htame => htame.cons (by rw [ht, Int.zero_add]; exact htame.weight_le)
    unfold directives? at h
    split at h
    · rename_i major minor r' heq
      cases heq
      split at h
      · cases h
      · rename_i hversion
        obtain ⟨taken, rfl, htame, hmore⟩ := ih h
        refine ⟨.version major minor :: taken, rfl, hcons rfl htame, fun rest' => ?_⟩
        rw [List.cons_append, directives?, if_neg hversion, hmore]
    · rename_i handle uri r' heq
      cases heq
      split at h
      · cases h
      · rename_i hnew
        obtain ⟨taken, rfl, htame, hmore⟩ := ih h
        refine ⟨.tagShorthand handle uri :: taken, rfl, hcons rfl htame, fun rest' => ?_⟩
        rw [List.cons_append, directives?, if_neg hnew, hmore]
    · cases h
      exact ⟨[], rfl, tame_nil, fun _ => rfl⟩

theorem endsDocument_of_head? {tokens tokens' : List Token} (h : tokens'.head? = tokens.head?) :
    endsDocument tokens' = endsDocument tokens := by
  cases tokens with
  | nil => rw [List.head?_eq_none_iff.mp h]
  | cons t r =>
    obtain ⟨r', rfl⟩ := List.head?_eq_some_iff.mp h
    cases t <;> rfl

/-- The root of the first document is read behind tokens that only start the
    document. -/
theorem first?_eq {node : NamedNode} (h : first? tokens = some (node, rest)) (hne : node ≠ empty) :
    ∃ start inner handles, tokens = start ++ inner ∧ Tame start ∧
      node? handles (4 * inner.length + 8) true false inner = some (node, rest) ∧
      ∀ ⦃inner'⦄, inner'.head? = inner.head? →
        first? (start ++ inner') = node? handles (4 * inner'.length + 8) true false inner' := by
  rw [first?] at h
  split at h
  · rename_i hexplicit
    rw [explicit?] at h
    split at h
    · rename_i handles inner hdirectives
      obtain ⟨taken, rfl, htame, hmore⟩ := directives?_append hdirectives
      split at h
      · cases h
        exact absurd rfl hne
      · rename_i hwritten
        refine ⟨taken ++ [.documentStart], inner, handles, by simp, ?_, h, fun inner' hhead => ?_⟩
        · exact htame.append (tame_nil.cons (by decide))
        · have hstart : (taken ++ .documentStart :: inner').head? =
              (taken ++ .documentStart :: inner).head? := by cases taken <;> rfl
          rw [List.append_assoc, List.singleton_append, first?, hstart, if_pos hexplicit, explicit?,
            hmore]
          simp only [endsDocument_of_head? hhead, if_neg hwritten]
    · cases h
  · rename_i himplicit
    refine ⟨[], tokens, standardHandles, rfl, tame_nil, h, fun inner' hhead => ?_⟩
    rw [List.nil_append, first?, hhead, if_neg himplicit]

/-! ## A root mapping -/

theorem head?_append_cons (start : List Token) (t : Token) (r r' : List Token) :
    (start ++ t :: r).head? = (start ++ t :: r').head? := by
  cases start <;> rfl

/-- The properties of a node and its kind stand before what it holds. -/
theorem node?_mapping {m : Nat} {props : Properties (List Char)}
    {pairs : List (NamedNode × NamedNode)}
    (h : node? handles (m + 1) true false tokens = some (.mapping props pairs, rest)) :
    ∃ start inner, Tame start ∧
      (tokens = start ++ .blockMapping :: inner ∧ pairs? handles m inner = some (pairs, rest) ∧
          (∀ k inner', node? handles (k + 1) true false (start ++ .blockMapping :: inner') =
            (pairs? handles k inner').map fun (pairs, r) => (.mapping props pairs, r)) ∨
        tokens = start ++ .flowMapping :: inner ∧
          flowPairs? handles m true inner = some (pairs, rest) ∧
          ∀ k inner', node? handles (k + 1) true false (start ++ .flowMapping :: inner') =
            (flowPairs? handles k true inner').map fun (pairs, r) => (.mapping props pairs, r)) := by
  have hnot : ∀ name, tokens.head? ≠ some (.alias name) := by
    intro name hname
    obtain ⟨r, rfl⟩ := List.head?_eq_some_iff.mp hname
    rw [node?_alias] at h
    cases h
  rw [node?_succ m true false hnot] at h
  obtain ⟨⟨props', r⟩, hprops, hcontent⟩ := Option.bind_eq_some_iff.mp h
  obtain ⟨start, rfl, htame, hmore⟩ := properties?_alike hprops
  have hstart : ∀ {t : Token} {inner inner' : List Token}, r = t :: inner → ∀ name,
      (start ++ t :: inner').head? ≠ some (.alias name) := by
    rintro t inner inner' rfl name
    rw [head?_append_cons start t inner' inner]
    exact hnot name
  have hbare : ∀ {r : List Token}, bare? props' r ≠ some (.mapping props pairs, rest) := by
    intro r hr
    rw [bare?] at hr
    split at hr <;> cases hr
  rcases r with _ | ⟨t, inner⟩
  · exact absurd hcontent hbare
  · refine ⟨start, inner, htame, ?_⟩
    cases t
    case blockMapping =>
      obtain ⟨⟨pairs', r'⟩, hpairs, heq⟩ := Option.map_eq_some_iff.mp hcontent
      cases heq
      refine .inl ⟨rfl, hpairs, fun k inner' => ?_⟩
      have hsame : Alike (.blockMapping :: inner) (.blockMapping :: inner') := .inl rfl
      rw [node?_succ k true false (hstart rfl), hmore hsame, Option.bind_some]
      rfl
    case flowMapping =>
      obtain ⟨⟨pairs', r'⟩, hpairs, heq⟩ := Option.map_eq_some_iff.mp hcontent
      cases heq
      refine .inr ⟨rfl, hpairs, fun k inner' => ?_⟩
      have hsame : Alike (.flowMapping :: inner) (.flowMapping :: inner') := .inl rfl
      rw [node?_succ k true false (hstart rfl), hmore hsame, Option.bind_some]
      rfl
    case scalar => cases hcontent
    case flowSequence =>
      obtain ⟨_, -, heq⟩ := Option.map_eq_some_iff.mp hcontent
      cases heq
    case blockSequence =>
      obtain ⟨_, -, heq⟩ := Option.map_eq_some_iff.mp hcontent
      cases heq
    all_goals exact absurd hcontent hbare

/-- In the place of its end mark, a block mapping goes on with more pairs. -/
theorem pairs?_grow : ∀ {n : Nat} {tokens rest : List Token} {pairs : List (NamedNode × NamedNode)},
    pairs? handles n tokens = some (pairs, rest) →
    ∃ taken, tokens = taken ++ .blockEnd :: rest ∧
      ∀ {m later all r}, n ≤ m → later.head? = some .key →
        pairs? handles m (taken ++ later) = some (all, r) →
        ∃ k pairs', pairs? handles k later = some (pairs', r) ∧ all = pairs ++ pairs' := by
  intro n
  induction n with
  | zero =>
    intro tokens rest pairs h
    rw [pairs?] at h
    cases h
  | succ n ih =>
    intro tokens rest pairs h
    rw [pairs?.eq_def] at h
    split at h
    · cases h
    · rename_i n' r heq
      cases heq
      split at h
      · cases h
      · rename_i key r₁ hkey
        split at h
        · cases h
        · rename_i value r₂ hvalue
          obtain ⟨⟨pairs, r₃⟩, hpairs, heq⟩ := Option.map_eq_some_iff.mp h
          cases heq
          obtain ⟨t₁, rfl, -, hmore₁⟩ :=
            ((local_all handles n).node true true).orEmpty endsPair_alike empty hkey
          obtain ⟨t₂, rfl, -, hmore₂⟩ := (local_all handles n).pairValue hvalue
          obtain ⟨t₃, rfl, hmore₃⟩ := ih hpairs
          refine ⟨.key :: (t₁ ++ (t₂ ++ t₃)), by simp, fun {m later all r} hm hlater hall => ?_⟩
          obtain ⟨m, rfl, hn⟩ := exists_succ hm
          have halike := alike_append t₃ (.inr ⟨rfl, hlater⟩ : Alike (.blockEnd :: rest) later)
          have hkey' := hmore₁ hn (alike_append t₂ halike)
          have hvalue' := hmore₂ hn halike
          dsimp only at hkey'
          simp only [List.cons_append, List.append_assoc, pairs?, hkey', hvalue'] at hall
          obtain ⟨⟨all, r'⟩, hall', heq⟩ := Option.map_eq_some_iff.mp hall
          cases heq
          obtain ⟨k, pairs', hread, rfl⟩ := hmore₃ hn hlater hall'
          exact ⟨k, pairs', hread, rfl⟩
    · rename_i heq
      cases heq
      cases h
      exact ⟨[], rfl, fun {m later all r} _ _ hall => ⟨m, all, hall, rfl⟩⟩
    · cases h

/-- A root whose pairs stand between the token `t` and an end mark: its tokens end with
    the mark, which is all that a reader needs to know of what follows. -/
theorem first?_closes {k : Int} {t mark : Token} {start start' inner : List Token}
    {f : Nat → List Token → Option (List (NamedNode × NamedNode) × List Token)}
    {props : Properties (List Char)} {pairs : List (NamedNode × NamedNode)}
    (hf : ∀ n, Closes k mark f n) (ht : t.weight ≤ k) (htame : Tame start) (htame' : Tame start')
    (hroot : ∀ later, first? (start ++ (start' ++ t :: later)) =
      (f (4 * (start' ++ t :: later).length + 7) later).map fun (pairs, r) =>
        (.mapping props pairs, r))
    (hread : f (4 * (start' ++ t :: inner).length + 7) inner = some (pairs, rest)) :
    ∃ body, inner = body ++ mark :: rest ∧
      Tame ((start ++ (start' ++ t :: body)) ++ [mark]) ∧
      ∀ later, rest.length ≤ later.length →
        first? ((start ++ (start' ++ t :: body)) ++ mark :: later) =
          some (.mapping props pairs, later) := by
  obtain ⟨taken, rfl, hlast, htaken, hweight, hmore⟩ := hf _ hread
  obtain ⟨body, rfl⟩ := List.getLast?_eq_some_iff.mp hlast
  refine ⟨body, by simp, ?_, fun later hlater => ?_⟩
  · have hinner : Tame (t :: (body ++ [mark])) := htaken.cons (by omega)
    have hall := htame.append (htame'.append hinner)
    simpa using hall
  · have hfuel : 4 * (start' ++ t :: ((body ++ [mark]) ++ rest)).length + 7 ≤
        4 * (start' ++ t :: ((body ++ [mark]) ++ later)).length + 7 := by
      simp only [List.length_append, List.length_cons]
      omega
    have hpairs : first? (start ++ (start' ++ t :: ((body ++ [mark]) ++ later))) =
        some (.mapping props pairs, later) := by
      rw [hroot, hmore hfuel, Option.map_some]
    simpa using hpairs

/-- The tokens of a root mapping: they end with its mark, which is all that a
    reader needs to know of what follows; and a block mapping goes on with the
    pairs that stand in the place of its end mark. -/
theorem first?_mapping {props : Properties (List Char)} {pairs : List (NamedNode × NamedNode)}
    (h : first? tokens = some (.mapping props pairs, rest)) :
    ∃ taken mark, tokens = taken ++ mark :: rest ∧ (mark = .blockEnd ∨ mark = .flowMappingEnd) ∧
      Tame (taken ++ [mark]) ∧
      (∀ later, rest.length ≤ later.length →
        first? (taken ++ mark :: later) = some (.mapping props pairs, later)) ∧
      (mark = .blockEnd → ∃ handles, ∀ later node r, rest.length < later.length →
        later.head? = some .key → first? (taken ++ later) = some (node, r) →
        ∃ k pairs', pairs? handles k later = some (pairs', r) ∧
          node = .mapping props (pairs ++ pairs')) := by
  obtain ⟨start, inner, handles, rfl, htame, hread, hfirst⟩ := first?_eq h (by simp [empty])
  obtain ⟨start', inner', htame', ⟨rfl, hpairs, hsame⟩ | ⟨rfl, hpairs, hsame⟩⟩ :=
    node?_mapping hread
  · -- however the document goes on, its root starts here
    have hroot : ∀ later, first? (start ++ (start' ++ .blockMapping :: later)) =
        (pairs? handles (4 * (start' ++ .blockMapping :: later).length + 7) later).map
          fun (pairs, r) => (.mapping props pairs, r) := fun later => by
      rw [hfirst (head?_append_cons start' _ _ _), hsame]
    obtain ⟨body, rfl, hall, hmore⟩ := first?_closes (fun n => (local_all handles n).pairs)
      (by decide) htame htame' hroot hpairs
    obtain ⟨body', heq, hgrow⟩ := pairs?_grow hpairs
    obtain rfl : body = body' := (List.append_inj' heq rfl).1
    refine ⟨start ++ (start' ++ .blockMapping :: body), .blockEnd, by simp, .inl rfl, hall, hmore,
      fun _ => ⟨handles, fun later node r hlater hkey hnode => ?_⟩⟩
    have hfuel : 4 * (start' ++ .blockMapping :: (body ++ .blockEnd :: rest)).length + 7 ≤
        4 * (start' ++ .blockMapping :: (body ++ later)).length + 7 := by
      simp only [List.length_append, List.length_cons]
      omega
    rw [List.append_assoc, List.append_assoc, List.cons_append, hroot] at hnode
    obtain ⟨⟨all, r'⟩, hall, heq⟩ := Option.map_eq_some_iff.mp hnode
    cases heq
    obtain ⟨k, pairs', hlater', rfl⟩ := hgrow hfuel hkey hall
    exact ⟨k, pairs', hlater', rfl⟩
  · have hroot : ∀ later, first? (start ++ (start' ++ .flowMapping :: later)) =
        (flowPairs? handles (4 * (start' ++ .flowMapping :: later).length + 7) true later).map
          fun (pairs, r) => (.mapping props pairs, r) := fun later => by
      rw [hfirst (head?_append_cons start' _ _ _), hsame]
    obtain ⟨body, rfl, hall, hmore⟩ := first?_closes (f := fun n => flowPairs? handles n true)
      (fun n => (local_all handles n).flowPairs true) (by decide) htame htame' hroot hpairs
    exact ⟨start ++ (start' ++ .flowMapping :: body), .flowMappingEnd, by simp, .inr rfl, hall,
      hmore, fun hmark => by cases hmark⟩

end CompilerRemarks.Yaml.Node
