/-
  CompilerRemarks.Proofs.Yaml.Scan

  Scanning the lines of a text. Each step finds the same token whatever line
  follows, unless the token is a plain scalar that may go on in that line
  (`Scanner.token?_onto`). So a text that goes on is scanned line by line as
  the lines before it alone, up to where they end (`Scanner.run_onto`).
-/
import CompilerRemarks.Proofs.Yaml.Scalar
import Mathlib.Data.List.Forall2

namespace CompilerRemarks.Yaml

open Cursor

namespace Scanner

/-- The same state in a text that goes on with `z`. -/
def onto (z : List Char) (s : Scanner) : Scanner :=
  { s with cursor := s.cursor.onto z }

variable {z : List Char} {s t : Scanner} {c : Char} {tail : List Char}

@[simp] theorem cursor_onto : (s.onto z).cursor = s.cursor.onto z := rfl

@[simp] theorem inFlow_onto : (s.onto z).inFlow = s.inFlow := rfl

@[simp] theorem indent_onto : (s.onto z).indent = s.indent := rfl

@[simp] theorem keyAllowed_onto : (s.onto z).keyAllowed = s.keyAllowed := rfl

/-! ## What does not look at the text -/

theorem closeFrom_onto (column : Int) (outer : List Int) :
    ∀ s : Scanner, closeFrom column outer (s.onto z) = (closeFrom column outer s).onto z := by
  induction outer with
  | nil => exact fun _ => rfl
  | cons enclosing outer ih =>
    intro s
    rw [closeFrom, closeFrom, indent_onto]
    split
    · exact ih { (s.push .blockEnd) with indent := enclosing, outer }
    · rfl

theorem closeBlocks_onto (column : Int) :
    (s.onto z).closeBlocks column = (s.closeBlocks column).onto z := by
  rw [closeBlocks, closeBlocks, inFlow_onto]
  split
  · rfl
  · exact closeFrom_onto column s.outer s

/-- Closing blocks adds tokens and changes the indentation. -/
theorem closeFrom_eq (column : Int) (outer : List Int) :
    ∀ s : Scanner, ∃ tokens indent outer',
      closeFrom column outer s = { s with tokens, indent, outer := outer' } := by
  induction outer with
  | nil => exact fun s => ⟨s.tokens, s.indent, s.outer, rfl⟩
  | cons enclosing outer ih =>
    intro s
    rw [closeFrom]
    split
    · exact ih { (s.push .blockEnd) with indent := enclosing, outer }
    · exact ⟨s.tokens, s.indent, s.outer, rfl⟩

theorem closeBlocks_eq (s : Scanner) (column : Int) :
    ∃ tokens indent outer, s.closeBlocks column = { s with tokens, indent, outer } := by
  rw [closeBlocks]
  split
  · exact ⟨s.tokens, s.indent, s.outer, rfl⟩
  · exact closeFrom_eq column s.outer s

@[simp] theorem cursor_closeBlocks (column : Int) : (s.closeBlocks column).cursor = s.cursor := by
  obtain ⟨tokens, indent, outer, heq⟩ := s.closeBlocks_eq column
  rw [heq]

theorem setKey_onto (key : Option PossibleKey) : (s.onto z).setKey key = (s.setKey key).onto z := by
  obtain ⟨cursor, tokens, indent, outer, keyAllowed, flowKeys, blockKey⟩ := s
  cases flowKeys <;> rfl

@[simp] theorem cursor_setKey (key : Option PossibleKey) : (s.setKey key).cursor = s.cursor := by
  rw [setKey]
  split <;> rfl

@[simp] theorem inFlow_setKey (key : Option PossibleKey) : (s.setKey key).inFlow = s.inFlow := by
  obtain ⟨cursor, tokens, indent, outer, keyAllowed, flowKeys, blockKey⟩ := s
  cases flowKeys <;> rfl

@[simp] theorem indent_setKey (key : Option PossibleKey) : (s.setKey key).indent = s.indent := by
  rw [setKey]
  split <;> rfl

@[simp] theorem currentKey_setKey (key : Option PossibleKey) : (s.setKey key).currentKey = key := by
  obtain ⟨cursor, tokens, indent, outer, keyAllowed, flowKeys, blockKey⟩ := s
  cases flowKeys <;> rfl

theorem dropKey?_onto : (s.onto z).dropKey? = s.dropKey?.map (onto z) := by
  have hkey : (s.onto z).currentKey = s.currentKey := rfl
  rw [dropKey?, dropKey?, hkey]
  split
  · split
    · rfl
    · rw [setKey_onto, Option.map_some]
  · rfl

/-- Forgetting the possible key changes nothing else. -/
theorem eq_setKey_of_dropKey? (h : s.dropKey? = some t) : t = s ∧ s.currentKey = none ∨
    t = s.setKey none := by
  rw [dropKey?] at h
  split at h
  · split at h
    · cases h
    · cases h
      exact .inr rfl
  · rename_i hnone
    cases h
    exact .inl ⟨rfl, hnone⟩

theorem cursor_of_dropKey? (h : s.dropKey? = some t) : t.cursor = s.cursor := by
  rcases eq_setKey_of_dropKey? h with ⟨rfl, -⟩ | rfl
  · rfl
  · exact cursor_setKey none

theorem currentKey_of_dropKey? (h : s.dropKey? = some t) : t.currentKey = none := by
  rcases eq_setKey_of_dropKey? h with ⟨rfl, hnone⟩ | rfl
  · exact hnone
  · exact currentKey_setKey none

theorem saveKey?_onto : (s.onto z).saveKey? = s.saveKey?.map (onto z) := by
  rw [saveKey?, saveKey?, keyAllowed_onto]
  split
  · rw [dropKey?_onto, Option.map_map, Option.map_map]
    congr 1
    funext t
    exact setKey_onto _
  · rfl

theorem cursor_of_saveKey? (h : s.saveKey? = some t) : t.cursor = s.cursor := by
  rw [saveKey?] at h
  split at h
  · obtain ⟨u, hu, rfl⟩ := Option.map_eq_some_iff.mp h
    rw [cursor_setKey, cursor_of_dropKey? hu]
  · cases h
    rfl

theorem block_of_dropKey? (h : s.dropKey? = some t) : t.inFlow = s.inFlow ∧ t.indent = s.indent := by
  rcases eq_setKey_of_dropKey? h with ⟨rfl, -⟩ | rfl
  · exact ⟨rfl, rfl⟩
  · exact ⟨inFlow_setKey none, indent_setKey none⟩

theorem block_of_saveKey? (h : s.saveKey? = some t) : t.inFlow = s.inFlow ∧ t.indent = s.indent := by
  rw [saveKey?] at h
  split at h
  · obtain ⟨u, hu, rfl⟩ := Option.map_eq_some_iff.mp h
    rw [inFlow_setKey, indent_setKey]
    exact block_of_dropKey? hu
  · cases h
    exact ⟨rfl, rfl⟩

theorem openBlock_onto (column number : Nat) (mark : Token) :
    (s.onto z).openBlock column number mark = (s.openBlock column number mark).onto z := by
  rw [openBlock, openBlock, inFlow_onto, indent_onto]
  split <;> rfl

@[simp] theorem cursor_openBlock (column number : Nat) (mark : Token) :
    (s.openBlock column number mark).cursor = s.cursor := by
  rw [openBlock]
  split <;> rfl

/-! ## One token -/

/-- Where a line starts outside flow collections, a key may start or no key is
    remembered. -/
def Settled (s : Scanner) : Prop :=
  s.cursor.Lined ∧
    (s.cursor.column = 0 → s.inFlow = false → s.keyAllowed = true ∨ s.currentKey = none)

/-- A step over a character of a line, from a state at the same place. -/
theorem emit_onto (h : s.cursor.InLine) (hrest : s.cursor.rest = c :: tail) (hc : c ≠ '\n')
    (hcursor : t.cursor = s.cursor) (mark : Token) :
    (t.onto z).emit 1 mark = (t.emit 1 mark).onto z ∧ (t.emit 1 mark).Settled := by
  rw [← hcursor] at h hrest
  refine ⟨?_, .inl (h.advance_one hrest hc), fun hzero => absurd hzero (Nat.succ_ne_zero _)⟩
  rw [emit, cursor_onto, onto_advance_one hrest]
  rfl

variable (h : s.cursor.InLine) (hrest : s.cursor.rest = c :: tail) (hc : c ≠ '\n')

include h hrest hc

theorem openFlow?_onto {mark : Token} (ht : s.openFlow? mark = some t) :
    (s.onto z).openFlow? mark = some (t.onto z) ∧ t.Settled := by
  obtain ⟨u, hu, rfl⟩ := Option.map_eq_some_iff.mp ht
  have hplace := cursor_of_saveKey? hu
  have hcursor : { u with flowKeys := none :: u.flowKeys, keyAllowed := true }.cursor = s.cursor :=
    hplace
  obtain ⟨hemit, hsettled⟩ := emit_onto (z := z) h hrest hc hcursor mark
  refine ⟨?_, hsettled⟩
  rw [← hemit, openFlow?, saveKey?_onto, hu]
  rfl

theorem closeFlow?_onto {mark : Token} (ht : s.closeFlow? mark = some t) :
    (s.onto z).closeFlow? mark = some (t.onto z) ∧ t.Settled := by
  obtain ⟨u, hu, rfl⟩ := Option.map_eq_some_iff.mp ht
  have hplace := cursor_of_dropKey? hu
  have hcursor : { u with flowKeys := u.flowKeys.drop 1, keyAllowed := false }.cursor = s.cursor :=
    hplace
  obtain ⟨hemit, hsettled⟩ := emit_onto (z := z) h hrest hc hcursor mark
  refine ⟨?_, hsettled⟩
  rw [← hemit, closeFlow?, dropKey?_onto, hu]
  rfl

theorem separator?_onto (ht : s.separator? = some t) :
    (s.onto z).separator? = some (t.onto z) ∧ t.Settled := by
  obtain ⟨u, hu, rfl⟩ := Option.map_eq_some_iff.mp ht
  have hplace := cursor_of_dropKey? hu
  have hcursor : { u with keyAllowed := true }.cursor = s.cursor := hplace
  obtain ⟨hemit, hsettled⟩ := emit_onto (z := z) h hrest hc hcursor .separator
  refine ⟨?_, hsettled⟩
  rw [← hemit, separator?, dropKey?_onto, hu]
  rfl

theorem entry?_onto (ht : s.entry? = some t) :
    Scanner.entry? (s.onto z) = some (t.onto z) ∧ t.Settled := by
  rw [ entry?] at ht ⊢
  split at ht
  · cases ht
  · rename_i hallowed
    obtain ⟨u, hu, rfl⟩ := Option.map_eq_some_iff.mp ht
    have hplace := (cursor_of_dropKey? hu).trans (cursor_openBlock _ _ _)
    have hcursor : { u with keyAllowed := true }.cursor = s.cursor := hplace
    obtain ⟨hemit, hsettled⟩ := emit_onto (z := z) h hrest hc hcursor .entry
    refine ⟨?_, hsettled⟩
    rw [← hemit]
    show (if !s.inFlow && !s.keyAllowed then none
      else ((s.onto z).openBlock s.cursor.column s.tokens.length .blockSequence).dropKey?.map
        fun s => { s with keyAllowed := true }.emit 1 .entry) = _
    rw [if_neg hallowed, openBlock_onto, dropKey?_onto, hu]
    rfl

theorem complexKey?_onto (ht : s.complexKey? = some t) :
    (s.onto z).complexKey? = some (t.onto z) ∧ t.Settled := by
  rw [complexKey?] at ht ⊢
  split at ht
  · cases ht
  · rename_i hallowed
    obtain ⟨u, hu, rfl⟩ := Option.map_eq_some_iff.mp ht
    have hplace := (cursor_of_dropKey? hu).trans (cursor_openBlock _ _ _)
    have hcursor : { u with keyAllowed := !u.inFlow }.cursor = s.cursor := hplace
    obtain ⟨hemit, hsettled⟩ := emit_onto (z := z) h hrest hc hcursor .key
    refine ⟨?_, hsettled⟩
    rw [← hemit]
    show (if !s.inFlow && !s.keyAllowed then none
      else ((s.onto z).openBlock s.cursor.column s.tokens.length .blockMapping).dropKey?.map
        fun s => { s with keyAllowed := !s.inFlow }.emit 1 .key) = _
    rw [if_neg hallowed, openBlock_onto, dropKey?_onto, hu]
    rfl

theorem value?_onto (ht : s.value? = some t) :
    (s.onto z).value? = some (t.onto z) ∧ t.Settled := by
  have hkey : (s.onto z).currentKey = s.currentKey := rfl
  rw [value?] at ht ⊢
  rw [hkey]
  split at ht
  · rename_i key hcurrent
    cases ht
    obtain ⟨u, hu⟩ : ∃ u, u = ((s.insertAt key.number .key).openBlock key.column key.number
      .blockMapping).setKey none := ⟨_, rfl⟩
    have hplace : u.cursor = s.cursor := by
      rw [hu, cursor_setKey, cursor_openBlock, insertAt]
    have hinsert : (s.onto z).insertAt key.number .key = (s.insertAt key.number .key).onto z := rfl
    have hcursor : { u with keyAllowed := false }.cursor = s.cursor := hplace
    obtain ⟨hemit, hsettled⟩ := emit_onto (z := z) h hrest hc hcursor .value
    simp only [← hu]
    refine ⟨?_, hsettled⟩
    rw [← hemit, hinsert, openBlock_onto, setKey_onto, ← hu]
    rfl
  · split at ht
    · cases ht
    · rename_i hallowed
      cases ht
      obtain ⟨u, hu⟩ : ∃ u, u = s.openBlock s.cursor.column s.tokens.length .blockMapping :=
        ⟨_, rfl⟩
      have hplace : u.cursor = s.cursor := by rw [hu, cursor_openBlock]
      have hcursor : { u with keyAllowed := !u.inFlow }.cursor = s.cursor := hplace
      obtain ⟨hemit, hsettled⟩ := emit_onto (z := z) h hrest hc hcursor .value
      simp only [← hu]
      refine ⟨?_, hsettled⟩
      show (if !s.inFlow && !s.keyAllowed then none
        else some ({ (s.onto z).openBlock s.cursor.column s.tokens.length .blockMapping with
          keyAllowed := !((s.onto z).openBlock s.cursor.column s.tokens.length
            .blockMapping).inFlow }.emit 1 .value)) = _
      rw [if_neg hallowed, ← hemit, openBlock_onto, ← hu]
      rfl

/-! ### Names, tags and scalars -/

theorem anchorOrAlias?_onto {make : List Char → Token} (ht : s.anchorOrAlias? make = some t) :
    (s.onto z).anchorOrAlias? make = some (t.onto z) ∧ t.Settled := by
  rw [anchorOrAlias?] at ht ⊢
  rw [saveKey?_onto]
  split at ht
  · cases ht
  · rename_i u hu
    have hplace := cursor_of_saveKey? hu
    obtain ⟨⟨name, next⟩, hname, rfl⟩ := Option.map_eq_some_iff.mp ht
    rw [hplace] at hname
    obtain ⟨hother, hline, hcolumn⟩ := anchorName?_onto (z := z) h hrest hc hname
    rw [hu, Option.map_some]
    refine ⟨?_, .inl hline, fun hzero => absurd hzero (Nat.ne_zero_of_lt hcolumn)⟩
    simp only [cursor_onto, hplace, hother, Option.map_some]
    rfl

theorem tag?_onto (ht : s.tag? = some t) : (s.onto z).tag? = some (t.onto z) ∧ t.Settled := by
  rw [tag?] at ht ⊢
  rw [saveKey?_onto]
  split at ht
  · cases ht
  · rename_i u hu
    have hplace := cursor_of_saveKey? hu
    obtain ⟨⟨mark, next⟩, htag, rfl⟩ := Option.map_eq_some_iff.mp ht
    rw [hplace] at htag
    obtain ⟨hother, hline, hcolumn⟩ := tagToken?_onto (z := z) h hrest hc htag
    rw [hu, Option.map_some]
    refine ⟨?_, .inl hline, fun hzero => absurd hzero (Nat.ne_zero_of_lt hcolumn)⟩
    simp only [cursor_onto, inFlow_onto, hplace, hother, Option.map_some]
    rfl

theorem quote?_onto (hz : StartsToken z) {single : Bool} (ht : s.quote? single = some t) :
    (s.onto z).quote? single = some (t.onto z) ∧ t.Settled := by
  rw [quote?] at ht ⊢
  rw [saveKey?_onto]
  split at ht
  · cases ht
  · rename_i u hu
    have hplace := cursor_of_saveKey? hu
    obtain ⟨⟨text, next⟩, htext, rfl⟩ := Option.map_eq_some_iff.mp ht
    rw [hplace] at htext
    obtain ⟨hother, hline, hcolumn⟩ := quoted?_onto hz h hrest hc htext
    rw [hu, Option.map_some]
    refine ⟨?_, .inl hline, fun hzero => absurd hzero (Nat.ne_zero_of_lt hcolumn)⟩
    simp only [cursor_onto, hplace, hother, Option.map_some]
    rfl

theorem block?_onto (hz : StartsToken z) {literal : Bool} (ht : s.block? literal = some t) :
    (s.onto z).block? literal = some (t.onto z) ∧ t.Settled := by
  rw [block?] at ht ⊢
  rw [dropKey?_onto]
  split at ht
  · cases ht
  · rename_i u hu
    have hplace := cursor_of_dropKey? hu
    obtain ⟨⟨text, next⟩, htext, rfl⟩ := Option.map_eq_some_iff.mp ht
    rw [hplace] at htext
    obtain ⟨hother, hlined⟩ := blockScalar?_onto hz h hrest hc htext
    rw [hu, Option.map_some]
    refine ⟨?_, hlined, fun _ _ => .inl rfl⟩
    simp only [cursor_onto, indent_onto, hplace, hother, Option.map_some]
    rfl

theorem directiveLine?_onto (ht : s.directiveLine? = some t) :
    (s.onto z).directiveLine? = some (t.onto z) ∧ t.Settled := by
  rw [directiveLine?] at ht ⊢
  rw [closeBlocks_onto, dropKey?_onto]
  split at ht
  · cases ht
  · rename_i u hu
    have hplace := (cursor_of_dropKey? hu).trans (cursor_closeBlocks _)
    obtain ⟨⟨mark, next⟩, hmark, rfl⟩ := Option.map_eq_some_iff.mp ht
    rw [hplace] at hmark
    obtain ⟨hother, hlined⟩ := directive?_onto (z := z) h hrest hc hmark
    have hnone := currentKey_of_dropKey? hu
    rw [hu, Option.map_some]
    refine ⟨?_, hlined, fun _ _ => .inr hnone⟩
    simp only [cursor_onto, hplace, hother, Option.map_some]
    rfl

omit hrest hc in
theorem documentMark?_onto {mark : Token} (hat : atDocumentMark s.cursor.rest = true)
    (ht : s.documentMark? mark = some t) :
    (s.onto z).documentMark? mark = some (t.onto z) ∧ t.Settled := by
  obtain ⟨a, b, c, tail, hrest, hfeed⟩ : ∃ a b c tail, s.cursor.rest = a :: b :: c :: tail ∧
      ∀ d ∈ [a, b, c], d ≠ '\n' := by
    unfold atDocumentMark at hat
    split at hat
    · rename_i hrest
      exact ⟨_, _, _, _, hrest, by simp⟩
    · rename_i hrest
      exact ⟨_, _, _, _, hrest, by simp⟩
    · cases hat
  obtain ⟨u, hu, rfl⟩ := Option.map_eq_some_iff.mp ht
  have hplace := (cursor_of_dropKey? hu).trans (cursor_closeBlocks _)
  have hstep : (u.cursor.onto z).advance 3 = (u.cursor.advance 3).onto z :=
    onto_advance (by simp [hplace, hrest])
  refine ⟨?_, .inl ?_, fun hzero => absurd hzero (Nat.succ_ne_zero _)⟩
  · rw [documentMark?, closeBlocks_onto, dropKey?_onto, hu]
    simp only [Option.map_some, emit, cursor_onto, hstep]
    rfl
  · show (u.cursor.advance 3).InLine
    rw [hplace]
    exact h.advance (by simpa [hrest] using hfeed)

/-- Whether the text ended in a plain scalar that may go on behind it: in a
    flow collection or outside of every block. -/
def Straddles (s : Scanner) : Prop :=
  (∃ text, s.tokens.head? = some (.scalar text true)) ∧ s.cursor.rest = [] ∧
    (s.inFlow = true ∨ s.indent < 0)

omit hrest hc in
theorem plain?_onto (hz : StartsToken z) (hword : ¬ NoWord s.inFlow s.cursor)
    (ht : s.plain? = some t) (hends : ¬ t.Straddles) :
    (s.onto z).plain? = some (t.onto z) ∧ t.Settled := by
  rw [plain?] at ht ⊢
  rw [saveKey?_onto]
  split at ht
  · cases ht
  · rename_i u hu
    have hplace := cursor_of_saveKey? hu
    have hblock := block_of_saveKey? hu
    obtain ⟨⟨text, broken, next⟩, htext, rfl⟩ := Option.map_eq_some_iff.mp ht
    rw [hplace, hblock.1, hblock.2] at htext
    have hends' : next.rest ≠ [] ∨ s.inFlow = false ∧ 0 < (s.indent + 1).toNat := by
      by_contra hneither
      rw [not_or, not_and_or, Classical.not_not, Bool.not_eq_false] at hneither
      refine hends ⟨⟨text, rfl⟩, hneither.1, ?_⟩
      show u.inFlow = true ∨ u.indent < 0
      rw [hblock.1, hblock.2]
      exact hneither.2.imp_right fun h => by omega
    obtain ⟨hother, hlined, hbroken⟩ := plainScalar?_onto hz h htext hends' hword
    rw [hu, Option.map_some]
    refine ⟨?_, hlined, fun hzero _ => .inl (hbroken hzero)⟩
    simp only [cursor_onto, inFlow_onto, indent_onto, hplace, hblock.1, hblock.2, hother,
      Option.map_some]
    rfl

omit h hrest hc in
/-- Two choices made alike. -/
theorem ite_rel {α : Type} {R : α → α → Prop} {p : Prop} [Decidable p] {a a' b b' : α}
    (hyes : p → R a b) (hno : ¬ p → R a' b') : R (if p then a else a') (if p then b else b') := by
  split
  · exact hyes ‹_›
  · exact hno ‹_›

omit h hrest hc in
/-- Two readings of a token that agree unless the token may go on. -/
def Agree (z : List Char) (a b : Option Scanner) : Prop :=
  ∀ t, a = some t → ¬ t.Straddles → b = some (t.onto z) ∧ t.Settled

/-- A token is read from the lines of a text whatever line follows, unless it
    may go on in that line. -/
theorem token?_onto (hz : StartsToken z) :
    Agree z (s.token? c tail) ((s.onto z).token? c (tail ++ z)) := by
  obtain ⟨init, htail⟩ := h.tail_ne_nil hrest hc
  have hgap : atGap (tail ++ z) = atGap tail := by
    rw [htail]
    cases init <;> rfl
  have hstarts : startsPlain s.inFlow (s.cursor.rest ++ z) = startsPlain s.inFlow s.cursor.rest := by
    rw [hrest, List.cons_append]
    simp only [startsPlain, hgap]
    rw [htail]
    cases init <;> rfl
  have hword : ¬ (s.cursor.column == 0 && c == '-' && atDocumentMark s.cursor.rest) = true →
      ¬ (s.cursor.column == 0 && c == '.' && atDocumentMark s.cursor.rest) = true →
      startsPlain s.inFlow s.cursor.rest = true → ¬ NoWord s.inFlow s.cursor := by
    intro hdash hpoint hplain
    refine not_noWord_of_startsPlain ?_ hplain
    rintro ⟨hcolumn, hmark⟩
    have hmark' := hmark
    unfold atDocumentMark at hmark
    split at hmark
    · rename_i hdashes
      rw [hrest, List.cons.injEq] at hdashes
      exact hdash (by rw [hcolumn, hdashes.1, hmark']; rfl)
    · rename_i hpoints
      rw [hrest, List.cons.injEq] at hpoints
      exact hpoint (by rw [hcolumn, hpoints.1, hmark']; rfl)
    · cases hmark
  rw [token?, token?]
  simp only [cursor_onto, column_onto, rest_onto, inFlow_onto, h.atDocumentMark_onto, hgap, hstarts]
  -- both states take the same one of the choices
  refine ite_rel (fun _ t ht _ => directiveLine?_onto h hrest hc ht) fun _ => ?_
  refine ite_rel (fun hat t ht _ => documentMark?_onto h (Bool.and_eq_true_iff.mp hat).2 ht)
    fun hdash => ?_
  refine ite_rel (fun hat t ht _ => documentMark?_onto h (Bool.and_eq_true_iff.mp hat).2 ht)
    fun hpoint => ?_
  refine ite_rel (fun _ t ht _ => openFlow?_onto h hrest hc ht) fun _ => ?_
  refine ite_rel (fun _ t ht _ => openFlow?_onto h hrest hc ht) fun _ => ?_
  refine ite_rel (fun _ t ht _ => closeFlow?_onto h hrest hc ht) fun _ => ?_
  refine ite_rel (fun _ t ht _ => closeFlow?_onto h hrest hc ht) fun _ => ?_
  refine ite_rel (fun _ t ht _ => separator?_onto h hrest hc ht) fun _ => ?_
  refine ite_rel (fun _ t ht _ => entry?_onto h hrest hc ht) fun _ => ?_
  refine ite_rel (fun _ t ht _ => complexKey?_onto h hrest hc ht) fun _ => ?_
  refine ite_rel (fun _ t ht _ => value?_onto h hrest hc ht) fun _ => ?_
  refine ite_rel (fun _ t ht _ => anchorOrAlias?_onto h hrest hc ht) fun _ => ?_
  refine ite_rel (fun _ t ht _ => anchorOrAlias?_onto h hrest hc ht) fun _ => ?_
  refine ite_rel (fun _ t ht _ => tag?_onto h hrest hc ht) fun _ => ?_
  refine ite_rel (fun _ t ht _ => block?_onto h hrest hc hz ht) fun _ => ?_
  refine ite_rel (fun _ t ht _ => block?_onto h hrest hc hz ht) fun _ => ?_
  refine ite_rel (fun _ t ht _ => quote?_onto h hrest hc hz ht) fun _ => ?_
  refine ite_rel (fun _ t ht _ => quote?_onto h hrest hc hz ht) fun _ => ?_
  refine ite_rel (fun hplain t ht hends => plain?_onto h hz (hword hdash hpoint hplain) ht hends)
    fun _ => ?_
  intro t ht
  cases ht

omit h hrest hc

/-! ## Between tokens -/

/-- Where `skipGaps` stops in a line. -/
def lineGap (s : Scanner) : Cursor :=
  let cur := s.cursor
  let cur := if cur.column == 0 && cur.isAt '\uFEFF' then cur.advance 1 else cur
  let tabs := s.inFlow || !s.keyAllowed
  (cur.skipWhile fun c => c == ' ' || (tabs && c == '\t')).skipComment

theorem lineGap_onto (hz : StartsToken z) (h : s.cursor.Lined) :
    (s.onto z).lineGap = s.lineGap.onto z ∧ s.lineGap.Lined ∧
      s.lineGap.rest.length ≤ s.cursor.rest.length ∧ s.cursor.column ≤ s.lineGap.column := by
  obtain ⟨start, hstart⟩ : ∃ start, start = if s.cursor.column == 0 && s.cursor.isAt '\uFEFF' then
    s.cursor.advance 1 else s.cursor := ⟨_, rfl⟩
  have hmark : (if (s.cursor.onto z).column == 0 && (s.cursor.onto z).isAt '\uFEFF' then
      (s.cursor.onto z).advance 1 else s.cursor.onto z) = start.onto z ∧ start.Lined ∧
      start.rest.length ≤ s.cursor.rest.length ∧ s.cursor.column ≤ start.column := by
    rcases h with hline | ⟨hrest, hcolumn⟩
    · rw [column_onto, isAt_onto hline.ne_nil, hstart]
      split
      · rename_i hat
        obtain ⟨hstep, hinside⟩ := hline.advance_of_isAt (z := z) (Bool.and_eq_true_iff.mp hat).2
          (by decide)
        exact ⟨hstep, .inl hinside, by simp, by simp⟩
      · exact ⟨rfl, .inl hline, Nat.le_refl _, Nat.le_refl _⟩
    · obtain ⟨c, tail, rfl, -, -, -, hc⟩ := hz
      have hnone : s.cursor.isAt '\uFEFF' = false := by simp [isAt, hrest]
      have hother : (s.cursor.onto (c :: tail)).isAt '\uFEFF' = false := by simp [isAt, hrest, hc]
      rw [hnone, Bool.and_false] at hstart
      rw [hother, Bool.and_false, hstart]
      exact ⟨rfl, .inr ⟨hrest, hcolumn⟩, Nat.le_refl _, Nat.le_refl _⟩
  obtain ⟨hother, hlined, hlength, hcolumn⟩ := hmark
  obtain ⟨p, hp⟩ : ∃ p : Char → Bool, p = fun c => c == ' ' ||
    ((s.inFlow || !s.keyAllowed) && c == '\t') := ⟨_, rfl⟩
  have hfeed : p '\n' = false := by
    rw [hp]
    cases s.inFlow || !s.keyAllowed <;> rfl
  have hhead : ∀ c ∈ z.head?, p c = false := by
    obtain ⟨c, tail, rfl, hgap, -⟩ := hz
    rintro d ⟨rfl⟩
    rw [isGap, Bool.or_eq_false_iff] at hgap
    simp only [hp, hgap.1, hgap.2, Bool.and_false, Bool.or_false]
  obtain ⟨hskip, hgap⟩ := hlined.skipWhile_onto hfeed hhead
  obtain ⟨hcomment, hend⟩ := hgap.skipComment_onto hz
  have hline : s.lineGap = (start.skipWhile p).skipComment := by
    rw [lineGap, ← hstart, hp]
  refine ⟨?_, ?_, ?_, ?_⟩
  · rw [hline, ← hcomment, ← hskip, ← hother, hp]
    rfl
  · rwa [hline]
  · rw [hline]
    exact (length_skipComment _).trans ((length_skipWhile _ _).trans hlength)
  · rw [hline]
    exact hcolumn.trans ((column_skipWhile _ _).trans (column_skipComment _))

theorem lineGap_nil (h : s.cursor.rest = []) : s.lineGap.rest = [] := by
  have hlength : ∀ cur : Cursor, cur.rest = [] → cur.skipComment.rest = [] := by
    intro cur hcur
    exact List.length_eq_zero_iff.mp (Nat.le_zero.mp (by simpa [hcur] using length_skipComment cur))
  refine hlength _ ?_
  simp only [skipWhile, take, rest_advance]
  split <;> simp [h]

theorem skipGaps_of_break (hrest : s.lineGap.rest = c :: tail) (hc : isBreak c = true) (n : Nat) :
    skipGaps (n + 1) s = skipGaps n
      { s with cursor := s.lineGap.readBreak.2, keyAllowed := s.keyAllowed || !s.inFlow } := by
  unfold lineGap at hrest ⊢
  simp only [skipGaps, hrest, if_pos hc]

theorem skipGaps_of_not_break (hrest : ∀ c ∈ s.lineGap.rest.head?, isBreak c = false) (n : Nat) :
    skipGaps (n + 1) s = { s with cursor := s.lineGap } := by
  unfold lineGap at hrest ⊢
  rw [skipGaps]
  split
  · rename_i hcons
    rw [if_neg]
    simp [hrest _ (by rw [hcons]; rfl)]
  · rfl

/-- Between tokens only the place changes, and whether a key may start. -/
theorem skipGaps_eq (n : Nat) : ∀ s : Scanner,
    ∃ cursor keyAllowed, skipGaps n s = { s with cursor, keyAllowed } := by
  induction n with
  | zero => exact fun s => ⟨s.cursor, s.keyAllowed, rfl⟩
  | succ n ih =>
    intro s
    by_cases hbreak : ∃ c tail, s.lineGap.rest = c :: tail ∧ isBreak c = true
    · obtain ⟨c, tail, hrest, hc⟩ := hbreak
      obtain ⟨cursor, keyAllowed, heq⟩ := ih
        { s with cursor := s.lineGap.readBreak.2, keyAllowed := s.keyAllowed || !s.inFlow }
      exact ⟨cursor, keyAllowed, (skipGaps_of_break hrest hc n).trans heq⟩
    · refine ⟨s.lineGap, s.keyAllowed, skipGaps_of_not_break ?_ n⟩
      intro c hc
      obtain ⟨tail, hrest⟩ := List.head?_eq_some_iff.mp hc
      exact Bool.eq_false_iff.mpr fun h => hbreak ⟨c, tail, hrest, h⟩

theorem skipGaps_onto (hz : StartsToken z) :
    ∀ {n m : Nat} {s : Scanner}, s.cursor.rest.length < n → s.cursor.rest.length + z.length < m →
      s.Settled → skipGaps m (s.onto z) = (skipGaps n s).onto z ∧ (skipGaps n s).Settled := by
  intro n
  induction n with
  | zero =>
    intro m s hn
    omega
  | succ n ih =>
    intro m s hn hm h
    obtain ⟨m, rfl⟩ : ∃ k, m = k + 1 := ⟨m - 1, by omega⟩
    obtain ⟨hgap, hlined, hlength, hcolumn⟩ := lineGap_onto hz h.1
    by_cases hbreak : ∃ c tail, s.lineGap.rest = c :: tail ∧ isBreak c = true
    · obtain ⟨c, tail, hrest, hc⟩ := hbreak
      have hline : s.lineGap.InLine := hlined.inLine (by simp [hrest])
      have hrest' : (s.onto z).lineGap.rest = c :: (tail ++ z) := by simp [hgap, hrest]
      have hshort := length_readBreak hrest hc
      rw [skipGaps_of_break hrest hc, skipGaps_of_break hrest' hc, hgap, hline.readBreak_onto]
      -- outside flow collections a key may start on the next line
      have hn' : s.lineGap.readBreak.2.rest.length < n := by omega
      have hm' : s.lineGap.readBreak.2.rest.length + z.length < m := by omega
      refine ih (s := { s with cursor := _, keyAllowed := s.keyAllowed || !s.inFlow }) hn' hm'
        ⟨hline.lined_readBreak hrest hc, fun _ hflow => .inl ?_⟩
      have hblock : s.inFlow = false := hflow
      simp [hblock]
    · have hstop : ∀ c ∈ s.lineGap.rest.head?, isBreak c = false := by
        intro c hc
        obtain ⟨tail, hrest⟩ := List.head?_eq_some_iff.mp hc
        exact Bool.eq_false_iff.mpr fun h => hbreak ⟨c, tail, hrest, h⟩
      have hstop' : ∀ c ∈ (s.onto z).lineGap.rest.head?, isBreak c = false := by
        rw [hgap, rest_onto]
        cases hrest : s.lineGap.rest with
        | nil =>
          obtain ⟨d, tail, rfl, -, hd, -⟩ := hz
          rintro c ⟨rfl⟩
          exact hd
        | cons d tail =>
          rw [hrest] at hstop
          exact hstop
      rw [skipGaps_of_not_break hstop, skipGaps_of_not_break hstop', hgap]
      refine ⟨rfl, hlined, fun hzero => h.2 ?_⟩
      exact Nat.le_zero.mp (hcolumn.trans (Nat.le_of_eq hzero))

/-- A possible key is forgotten or stays. -/
theorem refresh?_eq {cur : Cursor} {key key' : Option PossibleKey}
    (h : refresh? cur key = some key') : key' = none ∨ key' = key := by
  cases key with
  | none =>
    cases h
    exact .inl rfl
  | some key =>
    rw [refresh?] at h
    split at h
    · split at h
      · cases h
      · cases h
        exact .inl rfl
    · cases h
      exact .inr rfl

theorem mapM_refresh?_eq {cur : Cursor} : ∀ {keys keys' : List (Option PossibleKey)},
    keys.mapM (refresh? cur) = some keys' →
      List.Forall₂ (fun key key' => key' = none ∨ key' = key) keys keys' := by
  intro keys
  induction keys with
  | nil =>
    intro keys' h
    cases h
    exact .nil
  | cons key keys ih =>
    intro keys' h
    rw [List.mapM_cons] at h
    obtain ⟨key', hkey, h⟩ := Option.bind_eq_some_iff.mp h
    obtain ⟨later, hlater, h⟩ := Option.bind_eq_some_iff.mp h
    cases h
    exact .cons (refresh?_eq hkey) (ih hlater)

/-- Possible keys are forgotten, and nothing else changes. -/
theorem dropStale?_eq (h : s.dropStale? = some t) : ∃ blockKey flowKeys,
    t = { s with blockKey, flowKeys } ∧ (blockKey = none ∨ blockKey = s.blockKey) ∧
      List.Forall₂ (fun key key' => key' = none ∨ key' = key) s.flowKeys flowKeys := by
  rw [dropStale?] at h
  split at h
  · cases h
  · rename_i blockKey hblock
    obtain ⟨flowKeys, hflow, rfl⟩ := Option.map_eq_some_iff.mp h
    exact ⟨blockKey, flowKeys, rfl, refresh?_eq hblock, mapM_refresh?_eq hflow⟩

theorem dropStale?_onto : (s.onto z).dropStale? = s.dropStale?.map (onto z) := by
  have hrefresh : refresh? (s.cursor.onto z) = refresh? s.cursor := by
    funext key
    cases key <;> rfl
  have hkey : (s.onto z).blockKey = s.blockKey := rfl
  rw [dropStale?, dropStale?, cursor_onto, hrefresh, hkey]
  cases refresh? s.cursor s.blockKey with
  | none => rfl
  | some blockKey =>
    rw [Option.map_map]
    rfl

/-- Two states between the same two tokens: in the later one possible keys may
    be forgotten, and a key may start or not. -/
structure Waits (s t : Scanner) : Prop where
  tokens : t.tokens = s.tokens
  indent : t.indent = s.indent
  outer : t.outer = s.outer
  blockKey : t.blockKey = none ∨ t.blockKey = s.blockKey
  flowKeys : List.Forall₂ (fun key key' => key' = none ∨ key' = key) s.flowKeys t.flowKeys

theorem Waits.inFlow (h : s.Waits t) : t.inFlow = s.inFlow := by
  have hlength := h.flowKeys.length_eq
  simp only [Scanner.inFlow]
  cases hs : s.flowKeys <;> cases ht : t.flowKeys <;> simp_all

/-- The next token starts behind the gaps, once the blocks right of it are closed. -/
theorem reach?_eq (h : s.reach? = some t) : ∃ u, s.Waits u ∧
    u.cursor = (skipGaps (s.cursor.rest.length + 1) s).cursor ∧
    u.keyAllowed = (skipGaps (s.cursor.rest.length + 1) s).keyAllowed ∧
    t = u.closeBlocks (Int.ofNat u.cursor.column) := by
  obtain ⟨u, hu, rfl⟩ := Option.map_eq_some_iff.mp h
  obtain ⟨cursor, keyAllowed, hgaps⟩ := skipGaps_eq (s.cursor.rest.length + 1) s
  rw [hgaps] at hu ⊢
  obtain ⟨blockKey, flowKeys, rfl, hblock, hflow⟩ := dropStale?_eq hu
  exact ⟨{ s with cursor, keyAllowed, blockKey, flowKeys }, ⟨rfl, rfl, rfl, hblock, hflow⟩, rfl,
    rfl, rfl⟩

theorem reach?_onto (hz : StartsToken z) (h : s.Settled) (ht : s.reach? = some t) :
    (s.onto z).reach? = some (t.onto z) ∧ t.Settled := by
  obtain ⟨hgaps, hlined, hstart⟩ := skipGaps_onto hz (n := s.cursor.rest.length + 1)
    (m := (s.onto z).cursor.rest.length + 1) (Nat.lt_succ_self _) (by simp) h
  refine ⟨?_, ?_⟩
  · obtain ⟨u, hu, rfl⟩ := Option.map_eq_some_iff.mp ht
    rw [reach?, hgaps]
    rw [dropStale?_onto, hu, Option.map_some, Option.map_some, ← closeBlocks_onto]
    rfl
  · obtain ⟨u, hwaits, hcursor, hallowed, rfl⟩ := reach?_eq ht
    obtain ⟨cursor, keyAllowed, hsame⟩ := skipGaps_eq (s.cursor.rest.length + 1) s
    obtain ⟨tokens, indent, outer, heq⟩ := closeBlocks_eq u (Int.ofNat u.cursor.column)
    rw [hsame] at hcursor hallowed hlined hstart
    rw [heq]
    refine ⟨by rwa [← hcursor] at hlined, fun hzero hout => ?_⟩
    have hflow : s.inFlow = false := hwaits.inFlow.symm.trans hout
    rw [← hcursor, ← hallowed] at hstart
    refine (hstart hzero hflow).imp id fun hnone => ?_
    have hempty : ∀ {r : Scanner}, r.inFlow = false → r.flowKeys = [] := by simp [Scanner.inFlow]
    have hout' : u.flowKeys = [] := hempty hout
    simp only [currentKey, hempty hflow] at hnone
    simp only [currentKey, hout']
    exact hwaits.blockKey.elim id fun h => h.trans hnone

/-! ## Runs -/

/-- What a run to the end of the stream does first. -/
theorem run_cases {n : Nat} {tokens : List Token} (hrun : run n s = ⟨tokens, true⟩) :
    ∃ m there, n = m + 1 ∧ s.reach? = some there ∧
      (there.cursor.rest = [] ∧ there.finish? = some tokens ∨
        ∃ c tail next, there.cursor.rest = c :: tail ∧ there.token? c tail = some next ∧
          run m next = ⟨tokens, true⟩) := by
  cases n with
  | zero => cases hrun
  | succ n =>
    rw [run] at hrun
    split at hrun
    · cases hrun
    · rename_i there hreach
      refine ⟨n, there, rfl, hreach, ?_⟩
      split at hrun
      · rename_i hrest
        split at hrun
        · cases hrun
        · rename_i hfinish
          cases hrun
          exact .inl ⟨hrest, hfinish⟩
      · rename_i c tail hrest
        split at hrun
        · cases hrun
        · rename_i next hnext
          exact .inr ⟨c, tail, next, hrest, hnext, hrun⟩

theorem closeFrom_of_le {column : Int} (h : s.indent ≤ column) (outer : List Int) :
    closeFrom column outer s = s := by
  cases outer with
  | nil => rfl
  | cons enclosing outer => rw [closeFrom, if_neg (by omega)]

theorem closeBlocks_of_block {column : Int} (h : s.inFlow = true ∨ s.indent ≤ column) :
    s.closeBlocks column = s := by
  rw [closeBlocks]
  split
  · rfl
  · rename_i hflow
    exact closeFrom_of_le (h.resolve_left hflow) s.outer

@[simp] theorem tokens_setKey (key : Option PossibleKey) : (s.setKey key).tokens = s.tokens := by
  rw [setKey]
  split <;> rfl

theorem tokens_of_dropKey? (h : s.dropKey? = some t) : t.tokens = s.tokens := by
  rcases eq_setKey_of_dropKey? h with ⟨rfl, -⟩ | rfl
  · rfl
  · exact tokens_setKey none

/-- Where a plain scalar may go on behind the text, it is the last token. -/
theorem getLast?_of_straddles (h : s.Straddles) {n : Nat} {tokens : List Token}
    (hrun : run n s = ⟨tokens, true⟩) : ∃ text, tokens.getLast? = some (.scalar text true) := by
  obtain ⟨⟨text, hhead⟩, hrest, hblock⟩ := h
  obtain ⟨m, there, -, hreach, hthere⟩ := run_cases hrun
  obtain ⟨u, hwaits, hcursor, -, rfl⟩ := reach?_eq hreach
  have hopen : ∀ column : Int, -1 ≤ column → u.closeBlocks column = u := by
    intro column hcolumn
    refine closeBlocks_of_block (hblock.imp (fun h => hwaits.inFlow.trans h) fun h => ?_)
    rw [hwaits.indent]
    omega
  have hnil : u.cursor.rest = [] := by
    rw [hcursor, skipGaps_of_not_break (by simp [lineGap_nil hrest])]
    exact lineGap_nil hrest
  have hcolumn : (-1 : Int) ≤ Int.ofNat u.cursor.column := by
    rw [Int.ofNat_eq_natCast]
    omega
  rw [hopen _ hcolumn] at hthere
  rcases hthere with ⟨-, hfinish⟩ | ⟨c, tail, -, hcons, -⟩
  · rw [finish?, hopen _ (Int.le_refl _)] at hfinish
    obtain ⟨v, hv, rfl⟩ := Option.map_eq_some_iff.mp hfinish
    exact ⟨text, by rw [tokens_of_dropKey? hv, List.getLast?_reverse, hwaits.tokens, hhead]⟩
  · rw [hnil] at hcons
    cases hcons

/-- One token after the other. -/
inductive Steps : Scanner → Scanner → Prop where
  | refl (s : Scanner) : Steps s s
  | head {s there next t : Scanner} {c : Char} {tail : List Char} (hreach : s.reach? = some there)
      (hrest : there.cursor.rest = c :: tail) (hnext : there.token? c tail = some next)
      (h : Steps next t) : Steps s t

/-- No token starts with a line feed. -/
theorem token?_feed (hrest : s.cursor.rest = '\n' :: tail) : s.token? '\n' tail = none := by
  simp [token?, startsPlain, hrest, isBreak]

/-- A text that goes on with a line is scanned token by token as the lines
    before it alone, unless their last token may go on in that line. -/
theorem run_onto (hz : StartsToken z) :
    ∀ {n m : Nat} {s : Scanner} {tokens tokens' : List Token}, s.Settled →
      run n s = ⟨tokens, true⟩ → (∀ text, tokens.getLast? ≠ some (.scalar text true)) →
      run m (s.onto z) = ⟨tokens', true⟩ →
      ∃ last there k, Steps s last ∧ last.reach? = some there ∧ there.cursor.rest = [] ∧
        there.finish? = some tokens ∧ there.Settled ∧ (last.onto z).reach? = some (there.onto z) ∧
        run k (last.onto z) = ⟨tokens', true⟩ := by
  intro n
  induction n with
  | zero =>
    intro m s tokens tokens' _ hrun
    cases hrun
  | succ n ih =>
    intro m s tokens tokens' h hrun hlast hrun'
    obtain ⟨k, there, hk, hreach, hthere⟩ := run_cases hrun
    obtain rfl : n = k := Nat.succ_inj.mp hk
    obtain ⟨hreach', hsettled⟩ := reach?_onto hz h hreach
    rcases hthere with ⟨hrest, hfinish⟩ | ⟨c, tail, next, hrest, hnext, hlater⟩
    · exact ⟨s, there, m, .refl s, hreach, hrest, hfinish, hsettled, hreach', hrun'⟩
    · have hline : there.cursor.InLine := hsettled.1.inLine (by simp [hrest])
      have hc : c ≠ '\n' := by
        rintro rfl
        rw [token?_feed hrest] at hnext
        cases hnext
      have hends : ¬ next.Straddles := by
        intro hends
        obtain ⟨text, htext⟩ := getLast?_of_straddles hends hlater
        exact hlast text htext
      obtain ⟨hother, hsettled'⟩ := token?_onto hline hrest hc hz next hnext hends
      -- the longer text has the same token here
      obtain ⟨k', there', -, hreach'', hthere'⟩ := run_cases hrun'
      obtain rfl : there.onto z = there' := Option.some.inj (hreach'.symm.trans hreach'')
      have hrest' : (there.onto z).cursor.rest = c :: (tail ++ z) := by simp [hrest]
      rcases hthere' with ⟨hnil, -⟩ | ⟨c', tail', next', hcons, hnext', hlater'⟩
      · rw [hrest'] at hnil
        cases hnil
      · rw [hrest'] at hcons
        cases hcons
        obtain rfl : next.onto z = next' := Option.some.inj (hother.symm.trans hnext')
        obtain ⟨last, end', j, hsteps, hend⟩ := ih hsettled' hlater hlast hlater'
        exact ⟨last, end', j, .head hreach hrest hnext hsteps, hend⟩

end Scanner

end CompilerRemarks.Yaml
