/-
  CompilerRemarks.Proofs.Yaml.LineStart

  A line after lines that are by themselves a mapping, or after none. The
  scanner reaches it outside flow collections and further out than every block
  but the mapping itself (`AtLineStart`), so a pair that starts there is one of
  the mapping (`startsPair_of_mapping`).
-/
import CompilerRemarks.Proofs.Yaml.Root
import CompilerRemarks.Yaml.Document

namespace CompilerRemarks.Yaml

open Node Scanner

/-- The state in which a stream is scanned from its start. -/
def Scanner.start (text : List Char) : Scanner :=
  ⟨⟨text, 0, 0, 0⟩, [], -1, [], true, [], none⟩

/-- A text that is nothing, or lines that are ended and make up one mapping. -/
inductive Leads : List Char → Prop where
  | none : Leads []
  | mapping {init : List Char} {props : Properties (List Char)}
      {pairs : List (NamedNode × NamedNode)}
      (h : (Node.ofText (init ++ ['\n'])).all? = some [.mapping props pairs]) :
      Leads (init ++ ['\n'])

/-- Where the scanner stands when it reaches the text `z` at the left margin. -/
structure AtLineStart (z : List Char) (s : Scanner) : Prop where
  rest : s.cursor.rest = z
  column : s.cursor.column = 0
  inFlow : s.inFlow = false
  key : s.keyAllowed = true ∨ s.currentKey = none
  indent : s.indent = -1 ∨ s.indent = 0

variable {text z : List Char} {tokens tokens' : List Token} {there : Scanner}

theorem Scanner.Stacked.eq_nil {outer : List Int} (h : Stacked (-1) outer) : outer = [] := by
  cases outer with
  | nil => rfl
  | cons enclosing outer =>
    obtain ⟨h, hright⟩ := h.enclosing
    exact absurd h.neg_one_le (by omega)

/-- At the end of the stream a block at the left margin is closed, if there is one. -/
theorem tokens_of_finish? (hstacked : Stacked there.indent there.outer)
    (hflow : there.inFlow = false) (hfinish : there.finish? = some tokens) :
    (there.indent = 0 → tokens = there.tokens.reverse ++ [.blockEnd]) ∧
      (there.indent = -1 → tokens = there.tokens.reverse) := by
  obtain ⟨s, hs, rfl⟩ := Option.map_eq_some_iff.mp hfinish
  rw [tokens_of_dropKey? hs]
  constructor
  · intro hindent
    rw [hindent] at hstacked
    cases houter : there.outer with
    | nil =>
      rw [houter] at hstacked
      exact absurd hstacked.eq_of_nil (by decide)
    | cons enclosing outer =>
      rw [houter] at hstacked
      obtain ⟨hinner, hright⟩ := hstacked.enclosing
      obtain rfl : enclosing = -1 := by
        have hle := hinner.neg_one_le
        omega
      rw [closeBlocks, hflow, houter, hinner.eq_nil]
      simp [closeFrom, hindent, push]
  · intro hindent
    rw [closeBlocks_of_block (.inr (Int.le_of_eq hindent))]

theorem settled_start (h : (Scanner.start text).cursor.Lined) : (Scanner.start text).Settled :=
  ⟨h, fun _ _ => .inl rfl⟩

/-- Only end marks of documents. -/
theorem tame_of_dropWhile {rest : List Token} (h : rest.dropWhile (· == .documentEnd) = []) :
    Tame rest := by
  induction rest with
  | nil => exact tame_nil
  | cons t rest ih =>
    rw [List.dropWhile_cons] at h
    split at h
    · rename_i hend
      obtain rfl : t = .documentEnd := by simpa using hend
      exact (ih h).cons (by simpa [Token.weight] using (ih h).weight_le)
    · cases h

/-- At the end of the scanned lines, no flow collection is open if their
    brackets match. -/
theorem inFlow_of_tame (hdeep : there.Deep) (hfinish : there.finish? = some tokens)
    (htame : Tame tokens) : there.inFlow = false := by
  obtain ⟨s, hs, rfl⟩ := Option.map_eq_some_iff.mp hfinish
  obtain ⟨later, before, htokens, hsum⟩ := (moves_closeBlocks there (-1)).deep hdeep
  obtain ⟨_, _, _, heq⟩ := closeBlocks_eq there (-1)
  have hkeys : (there.closeBlocks (-1)).flowKeys = there.flowKeys := by rw [heq]
  have hle : weight later.reverse ≤ 0 := by
    refine htame _ ⟨before.reverse, ?_⟩
    rw [tokens_of_dropKey? hs, htokens, List.reverse_append]
  have hweight : weight later.reverse = (there.flowKeys.length : Int) := by
    rw [weight_reverse, hsum, hkeys]
  rw [hweight] at hle
  have hnil : there.flowKeys = [] := List.length_eq_zero_iff.mp (by omega)
  rw [Scanner.inFlow, hnil]
  rfl

theorem scan_eq_run (h : text.all isAllowed = true) :
    Token.scan text = run (text.length + 2) (Scanner.start text) := by
  rw [Token.scan, if_pos h]
  rfl

theorem allowed_of_scan (h : Token.scan text = ⟨tokens, true⟩) : text.all isAllowed = true := by
  rw [Token.scan] at h
  split at h
  · assumption
  · cases h

/-- The tokens of a text that leads to a line: the brackets among them match, and
    the last one cannot go on. -/
theorem Leads.scan (h : Leads text) : ∃ tokens, Token.scan text = ⟨tokens, true⟩ ∧ Tame tokens ∧
    (∀ word, tokens.getLast? ≠ some (.scalar word true)) ∧ (Scanner.start text).cursor.Lined := by
  cases h with
  | none => exact ⟨[], rfl, tame_nil, by simp, .inr ⟨rfl, rfl⟩⟩
  | @mapping init props pairs h =>
    obtain ⟨hall, rest, hfirst, hends⟩ := first?_of_single h
    obtain ⟨taken, mark, htokens, hmark, htame, -⟩ := first?_mapping hfirst
    generalize hscan : Token.scan (init ++ ['\n']) = scanned at hall htokens hfirst
    obtain ⟨tokens, isAll⟩ := scanned
    obtain rfl : isAll = true := hall
    obtain rfl : tokens = taken ++ mark :: rest := htokens
    refine ⟨_, rfl, ?_, fun word hword => ?_, .inl ⟨init, rfl⟩⟩
    · simpa using htame.append (tame_of_dropWhile hends)
    · rw [List.getLast?_append_of_ne_nil _ (List.cons_ne_nil _ _)] at hword
      rcases List.mem_cons.mp (List.mem_of_getLast? hword) with rfl | hmem
      · simp at hmark
      · have hend := List.dropWhile_eq_nil_iff.mp hends _ hmem
        cases hend

/-- The scanner reaches the line behind such a text. -/
theorem Leads.reach (hz : StartsToken z) (h : Leads text)
    (hscan : Token.scan (text ++ z) = ⟨tokens', true⟩) :
    ∃ there c tail next k tokens, AtLineStart z there ∧ z = c :: tail ∧
      there.token? c tail = some next ∧ run k next = ⟨tokens', true⟩ ∧
      Token.scan text = ⟨tokens, true⟩ ∧
      (there.indent = 0 → tokens = there.tokens.reverse ++ [.blockEnd]) ∧
      (there.indent = -1 → tokens = there.tokens.reverse) := by
  obtain ⟨tokens, htokens, htame, hlast, hlined⟩ := h.scan
  have hrun := htokens
  rw [scan_eq_run (allowed_of_scan htokens)] at hrun
  rw [scan_eq_run (allowed_of_scan hscan)] at hscan
  obtain ⟨last, there, k, hsteps, hreach, hrest, hfinish, hsettled, hreach', hrun'⟩ :=
    run_onto hz (settled_start hlined) hrun hlast hscan
  have hmoves := hsteps.moves.trans (moves_reach? hreach)
  have hflow : there.inFlow = false :=
    inFlow_of_tame (hmoves.deep ⟨[], [], rfl, rfl⟩) hfinish htame
  have hstacked : Stacked there.indent there.outer := hmoves.stacked .stream
  have hcolumn : there.cursor.column = 0 := (hsettled.1.resolve_left fun h => h.ne_nil hrest).2
  have hindent : there.indent ≤ 0 := by
    obtain ⟨u, hwaits, -, -, rfl⟩ := reach?_eq hreach
    rw [cursor_closeBlocks] at hcolumn
    obtain ⟨_, _, _, heq⟩ := closeBlocks_eq u (Int.ofNat u.cursor.column)
    have hout : u.inFlow = false := by
      rw [heq] at hflow
      exact hflow
    have hinner : Stacked u.indent u.outer := (hsteps.moves.trans (.wait hwaits)).stacked .stream
    rw [closeBlocks, hout, if_neg Bool.false_ne_true, hcolumn]
    exact hinner.indent_closeFrom (by decide) rfl
  obtain ⟨k', there', -, hreach'', hthere'⟩ := run_cases hrun'
  obtain rfl : there.onto z = there' := Option.some.inj (hreach'.symm.trans hreach'')
  have hplace : (there.onto z).cursor.rest = z := by simp [hrest]
  rcases hthere' with ⟨hnil, -⟩ | ⟨c, tail, next, hcons, hnext, hlater⟩
  · obtain ⟨c, tail, rfl, -⟩ := hz
    rw [hplace] at hnil
    cases hnil
  · obtain ⟨hblock, hstream⟩ := tokens_of_finish? hstacked hflow hfinish
    refine ⟨there.onto z, c, tail, next, k', tokens, ⟨hplace, hcolumn, hflow,
      hsettled.2 hcolumn hflow, ?_⟩, hplace.symm.trans hcons, hnext, hlater, htokens, hblock, hstream⟩
    have hge := hstacked.neg_one_le
    rw [indent_onto]
    omega

/-- A pair that starts behind such a text is one of the root mapping, behind
    the entries that the text has. -/
theorem Leads.startsPair (h : Leads text) {node : NamedNode} {later : List Token}
    (hnode : (Node.ofTokens ⟨tokens', true⟩).all? = some [node])
    (hscan : Token.scan text = ⟨tokens, true⟩) (hstart : there.indent = -1 ∨ there.indent = 0)
    (hblock : there.indent = 0 → tokens = there.tokens.reverse ++ [.blockEnd] ∧
      tokens' = there.tokens.reverse ++ later)
    (hstream : there.indent = -1 → tokens = there.tokens.reverse ∧
      tokens' = there.tokens.reverse ++ .blockMapping :: later)
    (hlater : later.head? = some .key) :
    ∃ handles k props pairs pairs' rest, pairs? handles k later = some (pairs', rest) ∧
      node = .mapping props (pairs ++ pairs') := by
  obtain ⟨-, rest', hroot, hends⟩ := first?_of_single hnode
  cases h with
  | none =>
    obtain rfl : [] = tokens := congrArg Leading.items hscan
    rcases hstart with hstart | hstart
    · obtain ⟨hnil, rfl⟩ := hstream hstart
      rw [← hnil, List.nil_append] at hroot
      have hread : node? standardHandles (4 * (Token.blockMapping :: later).length + 8) true false
          (.blockMapping :: later) = some (node, rest') := hroot
      obtain ⟨⟨pairs', r⟩, hpairs, heq⟩ := Option.map_eq_some_iff.mp hread
      cases heq
      exact ⟨_, _, .none, [], pairs', _, hpairs, rfl⟩
    · have hnil := (hblock hstart).1
      simp at hnil
  | @mapping init props pairs htext =>
    obtain ⟨hall, rest, hfirst, hover⟩ := first?_of_single htext
    rw [hscan] at hfirst
    obtain ⟨taken, mark, rfl, hmark, -, hsame, hgrow⟩ := first?_mapping hfirst
    rcases hstart with hstart | hstart
    · -- a root that is closed cannot be followed by another block
      obtain ⟨htokens, rfl⟩ := hstream hstart
      rw [← htokens, List.append_assoc, List.cons_append, hsame _ (by simp)] at hroot
      cases hroot
      rw [List.dropWhile_append, hover] at hends
      cases hends
    · obtain ⟨htokens, rfl⟩ := hblock hstart
      obtain ⟨rfl, rfl, rfl⟩ : rest = [] ∧ mark = .blockEnd ∧ taken = there.tokens.reverse := by
        rcases List.eq_nil_or_concat rest with rfl | ⟨init', last, rfl⟩
        · obtain ⟨htaken, hlast⟩ := List.append_inj' htokens rfl
          exact ⟨rfl, by simpa using hlast, htaken⟩
        · have hend := List.dropWhile_eq_nil_iff.mp hover last (by simp)
          rw [List.concat_eq_append, ← List.cons_append, ← List.append_assoc,
            List.append_singleton_inj] at htokens
          rw [htokens.2] at hend
          cases hend
      obtain ⟨handles, hgrow⟩ := hgrow rfl
      have hlong : 0 < later.length := by
        cases later with
        | nil => cases hlater
        | cons t r => exact Nat.succ_pos _
      obtain ⟨k, pairs', hpairs, rfl⟩ := hgrow later node rest' hlong hlater hroot
      exact ⟨handles, k, props, pairs, pairs', rest', hpairs, rfl⟩

end CompilerRemarks.Yaml
