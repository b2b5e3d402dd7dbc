/-
  CompilerRemarks.Proofs.Yaml.OneLine

  Scalars that are written on one line: in quotes, where single quotes are
  doubled and nothing is escaped, or plain. Each is read as the text that was
  written, its blanks included (`quoted?_text`, `plainScalar?_text`).
-/
import CompilerRemarks.Proofs.Text.Offset
import CompilerRemarks.Proofs.Yaml.Scalar

namespace CompilerRemarks.Yaml

open Cursor

variable {cur : Cursor} {d : Char} {gap tail : List Char}

namespace Cursor

@[simp] theorem line_advance (n : Nat) : (cur.advance n).line = cur.line := rfl

theorem advance_zero : cur.advance 0 = cur := rfl

theorem advance_advance (m n : Nat) : (cur.advance m).advance n = cur.advance (m + n) := by
  simp only [advance, List.drop_drop, List.take_add, Text.Utf8.size_append, Nat.add_assoc]

theorem rest_advance_append {text behind : List Char} (h : cur.rest = text ++ behind) :
    (cur.advance text.length).rest = behind := by
  rw [rest_advance, h, List.drop_left]

/-- A reader that stops at the end of the text does not stop before. -/
theorem length_lt_of_rest {text behind : List Char} (h : cur.rest = text ++ behind) :
    text.length < cur.rest.length + 1 := by
  rw [h, List.length_append]
  omega

theorem rest_advance_one {c : Char} {behind : List Char} (h : cur.rest = c :: behind) :
    (cur.advance 1).rest = behind := by
  rw [rest_advance, h, List.drop_one, List.tail_cons]

end Cursor

/-! ## Blanks between words -/

/-- A text is cut behind its first word and the blanks that follow it. -/
theorem exists_word (text : List Char) : ∃ word gap rest, text = word ++ (gap ++ rest) ∧
    (∀ c ∈ word, isGap c = false) ∧ (∀ c ∈ gap, isGap c = true) ∧
    (∀ c ∈ rest.head?, isGap c = false) ∧ (gap = [] → rest = []) := by
  refine ⟨text.takeWhile (!isGap ·), (text.dropWhile (!isGap ·)).takeWhile isGap,
    (text.dropWhile (!isGap ·)).dropWhile isGap, by simp, fun c hc => ?_,
    fun c hc => List.mem_takeWhile_imp hc, fun c hc => ?_, fun hgap => ?_⟩
  · simpa using List.mem_takeWhile_imp hc
  · have hnot := List.head?_dropWhile_not isGap (text.dropWhile (!isGap ·))
    rw [Option.mem_def.mp hc] at hnot
    simpa using hnot
  · cases hbehind : text.dropWhile (!isGap ·) with
    | nil => rfl
    | cons c rest =>
      have hnot := List.head?_dropWhile_not (!isGap ·) text
      rw [hbehind] at hgap hnot
      have hc : isGap c = true := by simpa using hnot
      rw [List.takeWhile_cons_of_pos hc] at hgap
      cases hgap

/-- Blanks are kept, as no break follows them. -/
theorem Fold.read?_gap (hd : isGap d = false) (hbreak : isBreak d = false) (indent : Nat) :
    ∀ {gap : List Char} {n : Nat} {f : Fold} {cur : Cursor}, (∀ c ∈ gap, isGap c = true) →
      gap.length < n → f.broken = false → cur.rest = gap ++ d :: tail →
      Fold.read? indent n f cur =
        some ({ f with blanks := f.blanks ++ gap }, cur.advance gap.length) := by
  intro gap
  induction gap with
  | nil =>
    intro n f cur _ hn _ hrest
    obtain ⟨n, rfl⟩ : ∃ k, n = k + 1 := ⟨n - 1, by simp at hn; omega⟩
    rw [Fold.read?_cons hrest, hd, hbreak, List.append_nil]
    rfl
  | cons c gap ih =>
    intro n f cur hgap hn hf hrest
    obtain ⟨n, rfl⟩ : ∃ k, n = k + 1 := ⟨n - 1, by omega⟩
    obtain ⟨hc, hgap⟩ := List.forall_mem_cons.mp hgap
    have hnext : (cur.advance 1).rest = gap ++ d :: tail := rest_advance_one hrest
    rw [Fold.read?_cons hrest, if_pos hc, hf, if_neg Bool.false_ne_true,
      ih hgap (Nat.lt_of_succ_lt_succ hn) rfl hnext, advance_advance, List.append_assoc,
      Nat.add_comm 1]
    simp

/-! ## Quoted scalars -/

/-- A character as it is written in quotes. -/
def inQuotes (single : Bool) (c : Char) : List Char :=
  if single && c == '\'' then ['\'', '\''] else [c]

/-- A character that is written in quotes without an escape. -/
def Quotable (single : Bool) (c : Char) : Prop :=
  isBreak c = false ∧ (single = false → c ≠ '"' ∧ c ≠ '\\')

variable {single : Bool}

theorem head?_inQuotes (c : Char) (rest : List Char) :
    (inQuotes single c ++ rest).head? = some c := by
  rw [inQuotes]
  split
  · rename_i h
    rw [Bool.and_eq_true, beq_iff_eq] at h
    rw [h.2]
    rfl
  · rfl

/-- Where no quote is doubled, a text stands in quotes as it is. -/
theorem flatMap_inQuotes {text : List Char} (h : single = true → '\'' ∉ text) :
    text.flatMap (inQuotes single) = text := by
  induction text with
  | nil => rfl
  | cons c text ih =>
    have hc : inQuotes single c = [c] := by
      rw [inQuotes, if_neg]
      rintro hquote
      obtain ⟨hsingle, hquote⟩ := Bool.and_eq_true_iff.mp hquote
      exact h hsingle (by simp [beq_iff_eq.mp hquote])
    rw [List.flatMap_cons, hc, ih fun hsingle hmem => h hsingle (List.mem_cons_of_mem _ hmem)]
    rfl

theorem length_le_flatMap_inQuotes (text : List Char) :
    text.length ≤ (text.flatMap (inQuotes single)).length := by
  induction text with
  | nil => exact Nat.le_refl _
  | cons c text ih =>
    have hpos : 0 < (inQuotes single c).length := by
      rw [inQuotes]
      split <;> simp
    rw [List.flatMap_cons, List.length_append, List.length_cons]
    omega

theorem quotedWord?_char {c : Char} (hgap : isGap c = false) (hc : Quotable single c)
    (hrest : cur.rest = inQuotes single c ++ tail) (n : Nat) (acc : List Char) :
    quotedWord? single (n + 1) acc cur =
      quotedWord? single n (c :: acc) (cur.advance (inQuotes single c).length) := by
  obtain ⟨behind, hbehind⟩ : ∃ behind, cur.rest = c :: behind := by
    have hhead := @head?_inQuotes single c tail
    rw [← hrest] at hhead
    obtain ⟨behind, hbehind⟩ := List.head?_eq_some_iff.mp hhead
    exact ⟨behind, hbehind⟩
  have hword : atGap cur.rest = false := by simp [hbehind, atGap, hgap, hc.1]
  cases single with
  | true =>
    rw [quotedWord?_single hbehind hword]
    by_cases hquote : c = '\''
    · subst hquote
      have hdouble : behind.head? = some '\'' := by
        rw [hbehind] at hrest
        have htail : behind = '\'' :: tail := (List.cons.inj hrest).2
        rw [htail]
        rfl
      rw [if_pos rfl, if_pos hdouble]
      rfl
    · rw [if_neg hquote, inQuotes, if_neg (by simp [hquote])]
      rfl
  | false =>
    obtain ⟨hquote, hback⟩ := hc.2 rfl
    rw [quotedWord?_double hbehind hword _ _ hback, if_neg hquote]
    rfl

/-- A word ends before a blank and before the closing quote. -/
theorem quotedWord?_stop (hstop : isGap d = true ∨ d = quoteMark single ∧
    (single = true → tail.head? ≠ some '\'')) (hrest : cur.rest = d :: tail) (n : Nat)
    (acc : List Char) : quotedWord? single (n + 1) acc cur = some (acc, .plain, cur) := by
  rcases hstop with hgap | ⟨rfl, hafter⟩
  · exact quotedWord?_gap (by simp [hrest, atGap, hgap]) single n acc
  · have hgap : atGap cur.rest = false := by cases single <;> simp [hrest, atGap, quoteMark,
      isGap, isBreak]
    cases single with
    | true => rw [quotedWord?_single hrest hgap, if_pos (by rfl),
      if_neg (hafter rfl)]
    | false => rw [quotedWord?_double hrest hgap _ _ (by decide), if_pos (by rfl)]

theorem quotedWord?_word (hstop : isGap d = true ∨ d = quoteMark single ∧
    (single = true → tail.head? ≠ some '\'')) :
    ∀ {word : List Char} {n : Nat} {acc : List Char} {cur : Cursor},
      (∀ c ∈ word, isGap c = false) → (∀ c ∈ word, Quotable single c) →
      (word.flatMap (inQuotes single)).length < n →
      cur.rest = word.flatMap (inQuotes single) ++ d :: tail →
      quotedWord? single n acc cur =
        some (word.reverse ++ acc, .plain,
          cur.advance (word.flatMap (inQuotes single)).length) := by
  intro word
  induction word with
  | nil =>
    intro n acc cur _ _ hn hrest
    obtain ⟨n, rfl⟩ : ∃ k, n = k + 1 := ⟨n - 1, by simp at hn; omega⟩
    rw [quotedWord?_stop hstop hrest]
    rfl
  | cons c word ih =>
    intro n acc cur hgap hword hn hrest
    obtain ⟨n, rfl⟩ : ∃ k, n = k + 1 := ⟨n - 1, by omega⟩
    obtain ⟨hc, hgap⟩ := List.forall_mem_cons.mp hgap
    obtain ⟨hquotable, hword⟩ := List.forall_mem_cons.mp hword
    rw [List.flatMap_cons, List.append_assoc] at hrest
    rw [List.flatMap_cons, List.length_append] at hn ⊢
    have hpos : 0 < (inQuotes single c).length := by
      rw [inQuotes]
      split <;> simp
    rw [quotedWord?_char hc hquotable hrest,
      ih hgap hword (by omega) (rest_advance_append hrest), advance_advance]
    simp

/-- A word and the blanks behind it are read before the rest of the text. -/
theorem quotedBody?_blanks {word behind : List Char} (hword : ∀ c ∈ word, isGap c = false)
    (hquotable : ∀ c ∈ word, Quotable single c) (hgap : ∀ c ∈ gap, isGap c = true)
    (hne : gap ≠ []) (hd : isGap d = false) (hbreak : isBreak d = false) (hcolumn : cur.column ≠ 0)
    (hrest : cur.rest = word.flatMap (inQuotes single) ++ (gap ++ d :: behind)) (n : Nat)
    (acc : List Char) :
    quotedBody? single (n + 1) acc cur =
      quotedBody? single n (gap.reverse ++ (word.reverse ++ acc))
        (cur.advance ((word.flatMap (inQuotes single)).length + gap.length)) := by
  obtain ⟨g, gap', rfl⟩ := List.exists_cons_of_ne_nil hne
  have hg := hgap g List.mem_cons_self
  have hread : quotedWord? single (cur.rest.length + 1) acc cur = some (word.reverse ++ acc, .plain,
      cur.advance (word.flatMap (inQuotes single)).length) :=
    quotedWord?_word (.inl hg) hword hquotable (length_lt_of_rest hrest) hrest
  have hthere := rest_advance_append hrest
  rw [quotedBody?_of_word (by simp [hcolumn]) (by simp [hrest]) hread, ← advance_advance]
  generalize cur.advance (word.flatMap (inQuotes single)).length = there at hthere ⊢
  have hquote : ¬ there.isAt (quoteMark single) = true := by
    rw [isAt, hthere, List.cons_append, List.head?_cons, beq_iff_eq]
    rintro heq
    rw [Option.some.inj heq] at hg
    cases single <;> cases hg
  have hfold : Fold.read? 0 (there.rest.length + 1) .empty there =
      some (⟨g :: gap', false, [], []⟩, there.advance (g :: gap').length) :=
    Fold.read?_gap hd hbreak 0 hgap (length_lt_of_rest hthere) rfl hthere
  rw [if_neg hquote, WordEnd.fold, hfold]
  rfl

/-- The last word of a quoted text and the quote behind it. -/
theorem quotedBody?_last {word : List Char} (hafter : single = true → tail.head? ≠ some '\'')
    (hword : ∀ c ∈ word, isGap c = false) (hquotable : ∀ c ∈ word, Quotable single c)
    (hcolumn : cur.column ≠ 0)
    (hrest : cur.rest = word.flatMap (inQuotes single) ++ quoteMark single :: tail) (n : Nat)
    (acc : List Char) :
    quotedBody? single (n + 1) acc cur =
      some (acc.reverse ++ word, cur.advance ((word.flatMap (inQuotes single)).length + 1)) := by
  have hread : quotedWord? single (cur.rest.length + 1) acc cur = some (word.reverse ++ acc,
      .plain, cur.advance (word.flatMap (inQuotes single)).length) :=
    quotedWord?_word (.inr ⟨rfl, hafter⟩) hword hquotable (length_lt_of_rest hrest) hrest
  have hquote : (cur.advance (word.flatMap (inQuotes single)).length).isAt
      (quoteMark single) = true := by
    rw [isAt, rest_advance_append hrest]
    exact beq_self_eq_true _
  rw [quotedBody?_of_word (by simp [hcolumn]) (by simp [hrest]) hread, if_pos hquote,
    advance_advance, List.reverse_append, List.reverse_reverse]

/-- Behind blanks, what is left of a quoted text starts with no blank, or its quote does. -/
theorem exists_behind_blanks {rest : List Char} (hrest : ∀ c ∈ rest, Quotable single c)
    (hhead : ∀ c ∈ rest.head?, isGap c = false) (tail : List Char) :
    ∃ e behind, rest.flatMap (inQuotes single) ++ quoteMark single :: tail = e :: behind ∧
      isGap e = false ∧ isBreak e = false := by
  cases rest with
  | nil => exact ⟨quoteMark single, tail, rfl, by cases single <;> rfl, by cases single <;> rfl⟩
  | cons c rest =>
    rw [List.flatMap_cons, List.append_assoc]
    obtain ⟨behind, hcons⟩ := List.head?_eq_some_iff.mp (@head?_inQuotes single c
      (rest.flatMap (inQuotes single) ++ quoteMark single :: tail))
    exact ⟨c, behind, hcons, hhead c rfl, (hrest c List.mem_cons_self).1⟩

/-- What is left of a quoted text is read word by word up to its quote. -/
theorem quotedBody?_text (hafter : single = true → tail.head? ≠ some '\'') :
    ∀ {n : Nat} {text acc : List Char} {cur : Cursor}, text.length < n →
      (∀ c ∈ text, Quotable single c) → cur.column ≠ 0 →
      cur.rest = text.flatMap (inQuotes single) ++ quoteMark single :: tail →
      quotedBody? single n acc cur =
        some (acc.reverse ++ text,
          cur.advance ((text.flatMap (inQuotes single)).length + 1)) := by
  intro n
  induction n with
  | zero =>
    intro text acc cur hn
    omega
  | succ n ih =>
    intro text acc cur hn htext hcolumn hrest
    obtain ⟨word, gap, rest, rfl, hword, hgap, hbehind, hnil⟩ := exists_word text
    have hquotable : ∀ c ∈ word, Quotable single c := fun c hc => htext c (by simp [hc])
    cases gap with
    | nil =>
      obtain rfl := hnil rfl
      rw [List.append_nil, List.append_nil] at hrest ⊢
      exact quotedBody?_last hafter hword hquotable hcolumn hrest n acc
    | cons g gap =>
      have hsame : (g :: gap).flatMap (inQuotes single) = g :: gap :=
        flatMap_inQuotes fun _ hquote => absurd (hgap _ hquote) (by decide)
      rw [List.flatMap_append, List.flatMap_append, hsame] at hrest ⊢
      rw [List.append_assoc, List.append_assoc] at hrest
      have hlater :
          (cur.advance ((word.flatMap (inQuotes single)).length + (g :: gap).length)).rest =
            rest.flatMap (inQuotes single) ++ quoteMark single :: tail := by
        rw [← advance_advance]
        exact rest_advance_append (rest_advance_append hrest)
      obtain ⟨e, behind, hnext, he, hbreak⟩ :=
        exists_behind_blanks (fun c hc => htext c (by simp [hc])) hbehind tail
      rw [hnext] at hrest
      rw [quotedBody?_blanks hword hquotable hgap (List.cons_ne_nil g gap) he hbreak hcolumn hrest,
        ih (by simp at hn ⊢; omega) (fun c hc => htext c (by simp [hc])) (by simp) hlater,
        advance_advance]
      simp [Nat.add_assoc, Nat.add_comm 1]

/-- A text in quotes on one line. -/
theorem quoted?_text {text : List Char} (htext : ∀ c ∈ text, Quotable single c)
    (hafter : single = true → tail.head? ≠ some '\'')
    (hrest : cur.rest =
      quoteMark single :: (text.flatMap (inQuotes single) ++ quoteMark single :: tail)) :
    quoted? single cur =
      some (text, cur.advance ((text.flatMap (inQuotes single)).length + 2)) := by
  have hshort : text.length < cur.rest.length + 1 := by
    have hlength := @length_le_flatMap_inQuotes single text
    rw [hrest, List.length_cons, List.length_append]
    omega
  have hbody : (cur.advance 1).rest = text.flatMap (inQuotes single) ++ quoteMark single :: tail :=
    rest_advance_one hrest
  rw [quoted?, quotedBody?_text hafter hshort htext (by simp) hbody, advance_advance,
    Nat.add_comm 1]
  rfl

/-! ## Plain scalars -/

/-- Whether a text is read as it stands where a plain scalar of a flow
    collection is written: it has no flow marks, no colon before a blank, a
    question mark or its end, and no blank before a number sign. -/
def isPlain : List Char → Bool
  | [] => true
  | c :: rest =>
    !isBreak c && !isFlowMark c && (c != ':' || rest.head?.any fun d => !isGap d && d != '?') &&
      (!isGap c || rest.head? != some '#') && isPlain rest

variable {c : Char} {word text behind : List Char} {flow : Bool}

theorem isPlain_cons (h : isPlain (c :: text) = true) : isBreak c = false ∧ isFlowMark c = false ∧
    (c = ':' → ∃ d ∈ text.head?, isGap d = false ∧ d ≠ '?') ∧
    (isGap c = true → text.head? ≠ some '#') ∧ isPlain text = true := by
  simp only [isPlain, Bool.and_eq_true, Bool.or_eq_true, Bool.not_eq_true', bne_iff_ne,
    Option.any_eq_true] at h
  obtain ⟨⟨⟨⟨hbreak, hmark⟩, hcolon⟩, hsharp⟩, htext⟩ := h
  refine ⟨hbreak, hmark, fun hc => ?_, fun hc => ?_, htext⟩
  · exact hcolon.resolve_left fun h => h hc
  · exact hsharp.resolve_left (by simp [hc])

theorem isPlain_of_append : ∀ {word : List Char}, isPlain (word ++ text) = true →
    isPlain text = true := by
  intro word
  induction word with
  | nil => exact id
  | cons c word ih => exact fun h => ih (isPlain_cons h).2.2.2.2

/-- Behind blanks no comment starts. -/
theorem head?_ne_sharp (hgap : ∀ c ∈ gap, isGap c = true) (hne : gap ≠ []) :
    isPlain (gap ++ text) = true → text.head? ≠ some '#' := by
  induction gap with
  | nil => exact absurd rfl hne
  | cons c gap ih =>
    intro h
    obtain ⟨hc, hgap⟩ := List.forall_mem_cons.mp hgap
    obtain ⟨-, -, -, hsharp, htext⟩ := isPlain_cons h
    cases gap with
    | nil => exact hsharp hc
    | cons c' gap => exact ih hgap (List.cons_ne_nil c' gap) htext

/-- Where a word of a plain scalar ends. -/
def EndsWord (flow : Bool) (z : List Char) : Prop :=
  ∃ c tail, z = c :: tail ∧ (isGap c = true ∨ c = ':' ∧ atGap tail = true ∨
    flow = true ∧ isFlowMark c = true)

/-- No blank and no break makes a colon before it an error. -/
theorem not_mark_of_gap (h : (isGap c || isBreak c) = true) :
    (isFlowMark c || c == '?') = false := by
  simp only [isGap, isBreak, Bool.or_eq_true, beq_iff_eq, or_assoc] at h
  rcases h with rfl | rfl | rfl | rfl | rfl | rfl | rfl <;> decide

theorem EndsWord.plainWord? (h : EndsWord flow cur.rest) (n : Nat) (acc : List Char) :
    plainWord? flow (n + 1) acc cur = some (acc, cur) := by
  obtain ⟨c, tail, hrest, hgap | ⟨rfl, htail⟩ | ⟨rfl, hmark⟩⟩ := h
  · rw [plainWord?_cons hrest, hgap, Bool.true_or, if_pos rfl]
  · have hnone : ¬ (flow && ':' == ':' && tail.head?.any fun d => isFlowMark d || d == '?') =
        true := by
      cases tail with
      | nil => simp
      | cons d tail => simp [not_mark_of_gap htail]
    have hcolon : (isGap ':' || isBreak ':') = false := by decide
    rw [plainWord?_cons hrest, hcolon, if_neg Bool.false_ne_true, if_neg hnone, htail]
    rfl
  · have hc : (isGap c || isBreak c) = false ∧ c ≠ ':' := by
      simp only [isFlowMark, Bool.or_eq_true, beq_iff_eq, or_assoc] at hmark
      rcases hmark with rfl | rfl | rfl | rfl | rfl <;> decide
    rw [plainWord?_cons hrest, hc.1, if_neg Bool.false_ne_true, hmark]
    simp [hc.2]

theorem plainWord?_char (hc : isGap c = false) (h : isPlain (c :: text) = true)
    (hrest : cur.rest = c :: (text ++ behind)) (n : Nat) (acc : List Char) :
    plainWord? flow (n + 1) acc cur = plainWord? flow n (c :: acc) (cur.advance 1) := by
  obtain ⟨hbreak, hmark, hcolon, -, htext⟩ := isPlain_cons h
  have hgo : ¬ (flow && c == ':' && (text ++ behind).head?.any fun d => isFlowMark d || d == '?') =
      true ∧ ¬ ((c == ':' && atGap (text ++ behind)) || (flow && isFlowMark c)) = true := by
    by_cases hcol : c = ':'
    · obtain ⟨d, hd, hgap, hquestion⟩ := hcolon hcol
      obtain ⟨text, rfl⟩ := List.head?_eq_some_iff.mp hd
      obtain ⟨hbreak', hmark', -⟩ := isPlain_cons htext
      simp [hmark, hmark', hquestion, atGap, hgap, hbreak']
    · simp [hcol, hmark]
  rw [plainWord?_cons hrest, hc, hbreak, Bool.or_self, if_neg Bool.false_ne_true, if_neg hgo.1,
    if_neg hgo.2]

theorem plainWord?_word (hends : EndsWord flow (text ++ behind)) :
    ∀ {word : List Char} {n : Nat} {acc : List Char} {cur : Cursor},
      (∀ c ∈ word, isGap c = false) → isPlain (word ++ text) = true → word.length < n →
      cur.rest = word ++ (text ++ behind) →
      plainWord? flow n acc cur = some (word.reverse ++ acc, cur.advance word.length) := by
  intro word
  induction word with
  | nil =>
    intro n acc cur _ _ hn hrest
    obtain ⟨n, rfl⟩ : ∃ k, n = k + 1 := ⟨n - 1, by simp at hn; omega⟩
    exact EndsWord.plainWord? (by rwa [hrest]) n acc
  | cons c word ih =>
    intro n acc cur hword hplain hn hrest
    obtain ⟨n, rfl⟩ : ∃ k, n = k + 1 := ⟨n - 1, by omega⟩
    obtain ⟨hc, hword⟩ := List.forall_mem_cons.mp hword
    have hrest' : cur.rest = c :: ((word ++ text) ++ behind) := by
      rw [hrest, List.cons_append, List.append_assoc]
    have hnext : (cur.advance 1).rest = word ++ (text ++ behind) :=
      rest_advance_one hrest
    rw [plainWord?_char hc hplain hrest', ih hword (isPlain_cons hplain).2.2.2.2
      (Nat.lt_of_succ_lt_succ hn) hnext, advance_advance, Nat.add_comm 1]
    simp

/-- A plain scalar ends where no further word starts. -/
theorem plainBody?_ends (h : EndsWord flow cur.rest) (indent n : Nat) (acc : List Char)
    (fold : Fold) :
    plainBody? flow indent (n + 1) acc fold cur = some (acc.reverse, fold.broken, cur) := by
  rw [plainBody?, h.plainWord?]
  split <;> rfl

/-- The last word of a plain scalar. -/
theorem plainBody?_word (hends : EndsWord flow (d :: tail)) (hd : isGap d = false)
    (hbreak : isBreak d = false) (hword : ∀ c ∈ word, isGap c = false) (hne : word ≠ [])
    (hplain : isPlain word = true) (hstart : stopsPlain cur = false)
    (hrest : cur.rest = word ++ d :: tail) (indent n : Nat) (acc : List Char) (fold : Fold) :
    plainBody? flow indent (n + 1) acc fold cur =
      some (acc.reverse ++ (fold.text ++ word), false, cur.advance word.length) := by
  have hbehind : EndsWord flow ([] ++ d :: tail) := hends
  have hread : plainWord? flow (cur.rest.length + 1) [] cur =
      some (word.reverse ++ [], cur.advance word.length) :=
    plainWord?_word hbehind hword (by rwa [List.append_nil]) (length_lt_of_rest hrest) hrest
  rw [plainBody?_of_word hstart hread (by simpa using hne) (rest_advance_append hrest), hd, hbreak]
  simp

/-- A word of a plain scalar and the blanks behind it are read before the rest. -/
theorem plainBody?_blanks (hword : ∀ c ∈ word, isGap c = false) (hne : word ≠ [])
    (hgap : ∀ c ∈ gap, isGap c = true) (hblank : gap ≠ []) (hd : isGap d = false)
    (hbreak : isBreak d = false) (hplain : isPlain (word ++ text) = true)
    (hsame : text ++ behind = gap ++ d :: tail) (hstart : stopsPlain cur = false)
    (hrest : cur.rest = word ++ (text ++ behind)) {indent : Nat}
    (hright : flow = true ∨ indent ≤ cur.column + 1) (n : Nat) (acc : List Char) (fold : Fold) :
    plainBody? flow indent (n + 1) acc fold cur =
      plainBody? flow indent n (word.reverse ++ fold.text.reverse ++ acc) ⟨gap, false, [], []⟩
        (cur.advance (word.length + gap.length)) := by
  obtain ⟨g, gap', rfl⟩ := List.exists_cons_of_ne_nil hblank
  have hg := hgap g List.mem_cons_self
  have hread : plainWord? flow (cur.rest.length + 1) [] cur =
      some (word.reverse ++ [], cur.advance word.length) :=
    plainWord?_word ⟨g, gap' ++ d :: tail, hsame, .inl hg⟩ hword hplain (length_lt_of_rest hrest)
      hrest
  have hnext : (cur.advance word.length).rest = g :: (gap' ++ d :: tail) :=
    (rest_advance_append hrest).trans hsame
  have hpos := List.length_pos_iff.mpr hne
  rw [← advance_advance, plainBody?_of_word hstart hread (by simpa using hne) hnext]
  generalize hthere : cur.advance word.length = there at hnext ⊢
  have hcolumn : there.column = cur.column + word.length := by rw [← hthere, column_advance]
  have hfold : Fold.read? indent (there.rest.length + 1) .empty there =
      some (⟨g :: gap', false, [], []⟩, there.advance (g :: gap').length) :=
    Fold.read?_gap hd hbreak indent hgap (length_lt_of_rest hnext) rfl hnext
  have hleft : ¬ (!flow && decide ((there.advance (g :: gap').length).column < indent)) = true := by
    rcases hright with rfl | hright
    · simp
    · intro hleft
      have hcolumn' := of_decide_eq_true (Bool.and_eq_true_iff.mp hleft).2
      rw [column_advance, List.length_cons] at hcolumn'
      omega
  rw [hg, Bool.true_or, if_pos rfl, hfold, Option.bind_some, List.append_nil]
  exact if_neg hleft

/-- A plain scalar is not over before its first word. -/
theorem stopsPlain_of_word (hfirst : ∀ c ∈ word.head?, c ≠ '#') (hne : word ≠ [])
    (hmark : cur.column = 0 → atDocumentMark cur.rest = false) (hrest : cur.rest = word ++ behind) :
    stopsPlain cur = false := by
  obtain ⟨c, word, rfl⟩ := List.exists_cons_of_ne_nil hne
  have hsharp := hfirst c rfl
  by_cases hzero : cur.column = 0
  · rw [stopsPlain, hmark hzero]
    simp [isAt, hrest, hsharp]
  · simp [stopsPlain, isAt, hrest, hsharp, hzero]

/-- Behind its last word, a text that ends with no blank is over. -/
theorem eq_nil_of_getLast? (hlast : ∀ c ∈ (word ++ gap).getLast?, isGap c = false)
    (hgap : ∀ c ∈ gap, isGap c = true) : gap = [] := by
  rcases List.eq_nil_or_concat gap with rfl | ⟨init, g, rfl⟩
  · rfl
  · have hfree := hlast g (by simp)
    rw [hgap g (by simp)] at hfree
    cases hfree

/-- A text that starts with no blank starts with a word. -/
theorem ne_nil_of_head? (hfirst : ∃ c ∈ (word ++ (gap ++ text)).head?, isGap c = false)
    (hgap : ∀ c ∈ gap, isGap c = true) (hnil : gap = [] → text = []) : word ≠ [] := by
  rintro rfl
  obtain ⟨c, hc, hfree⟩ := hfirst
  cases gap with
  | nil => simp [hnil rfl] at hc
  | cons g gap =>
    cases hc
    rw [hgap c List.mem_cons_self] at hfree
    cases hfree

/-- The last word of a plain text, with the blanks between it and what follows. -/
theorem plainBody?_last (hends : EndsWord flow (d :: tail)) (hd : isGap d = false)
    (hbreak : isBreak d = false) (hgap : ∀ c ∈ gap, isGap c = true)
    (hword : ∀ c ∈ word, isGap c = false) (hne : word ≠ []) (hplain : isPlain word = true)
    (hstart : stopsPlain cur = false) (hrest : cur.rest = word ++ (gap ++ d :: tail)) {indent : Nat}
    (hright : flow = true ∨ indent ≤ cur.column + 1) (n : Nat) (acc : List Char) (fold : Fold) :
    plainBody? flow indent (n + 2) acc fold cur =
      some (acc.reverse ++ (fold.text ++ word), false, cur.advance (word.length + gap.length)) := by
  cases gap with
  | nil =>
    rw [List.nil_append] at hrest
    exact plainBody?_word hends hd hbreak hword hne hplain hstart hrest indent (n + 1) acc fold
  | cons g gap =>
    have hlater : (cur.advance (word.length + (g :: gap).length)).rest = d :: tail := by
      rw [← advance_advance]
      exact rest_advance_append (rest_advance_append hrest)
    have hsame : [] ++ ((g :: gap) ++ d :: tail) = (g :: gap) ++ d :: tail := rfl
    rw [plainBody?_blanks hword hne hgap (List.cons_ne_nil g gap) hd hbreak
      (by rwa [List.append_nil]) hsame hstart hrest hright, plainBody?_ends (by rwa [hlater])]
    simp

/-- A plain text on one line is read word by word, with the blanks behind it. -/
theorem plainBody?_text (hends : EndsWord flow (d :: tail)) (hd : isGap d = false)
    (hbreak : isBreak d = false) (hgap : ∀ c ∈ gap, isGap c = true) (indent : Nat) :
    ∀ {n : Nat} {text acc : List Char} {fold : Fold} {cur : Cursor}, text.length + 1 < n →
      (∃ c ∈ text.head?, isGap c = false ∧ c ≠ '#') → (∀ c ∈ text.getLast?, isGap c = false) →
      isPlain text = true → (flow = true ∨ indent ≤ cur.column + 1) →
      (cur.column = 0 → atDocumentMark cur.rest = false) →
      cur.rest = text ++ (gap ++ d :: tail) →
      plainBody? flow indent n acc fold cur =
        some (acc.reverse ++ (fold.text ++ text), false,
          cur.advance (text.length + gap.length)) := by
  intro n
  induction n with
  | zero =>
    intro text acc fold cur hn
    omega
  | succ n ih =>
    intro text acc fold cur hn hfirst hlast hplain hright hmark hrest
    obtain ⟨word, blanks, rest, rfl, hword, hblanks, hbehind, hnil⟩ := exists_word text
    have hne : word ≠ [] :=
      ne_nil_of_head? (hfirst.imp fun c h => ⟨h.1, h.2.1⟩) hblanks hnil
    have hpos := List.length_pos_iff.mpr hne
    have hstart : stopsPlain cur = false := by
      obtain ⟨c, hc, -, hsharp⟩ := hfirst
      rw [List.append_assoc] at hrest
      refine stopsPlain_of_word (fun e he => ?_) hne hmark hrest
      rw [List.head?_append, Option.mem_def.mp he] at hc
      cases hc
      exact hsharp
    cases rest with
    | nil =>
      rw [List.append_nil] at hn hlast hplain hrest ⊢
      obtain rfl := eq_nil_of_getLast? hlast hblanks
      rw [List.append_nil] at hn hplain hrest ⊢
      obtain ⟨n, rfl⟩ : ∃ k, n = k + 1 := ⟨n - 1, by omega⟩
      exact plainBody?_last hends hd hbreak hgap hword hne hplain hstart hrest hright n acc fold
    | cons e rest =>
      have hblank : blanks ≠ [] := fun h => List.cons_ne_nil e rest (hnil h)
      have hsharp : e ≠ '#' := by
        rintro rfl
        exact head?_ne_sharp hblanks hblank (isPlain_of_append hplain) rfl
      have hplain' : isPlain (e :: rest) = true := isPlain_of_append (isPlain_of_append hplain)
      have hrest' : cur.rest = word ++ ((blanks ++ e :: rest) ++ (gap ++ d :: tail)) := by
        rw [hrest, List.append_assoc]
      have hlater : (cur.advance (word.length + blanks.length)).rest =
          (e :: rest) ++ (gap ++ d :: tail) := by
        rw [← advance_advance]
        refine rest_advance_append (rest_advance_append ?_)
        rw [hrest', List.append_assoc]
      rw [plainBody?_blanks hword hne hblanks hblank (hbehind e rfl) (isPlain_cons hplain').1 hplain
        (List.append_assoc ..) hstart hrest' hright, ih (by simp at hn ⊢; omega)
        ⟨e, rfl, hbehind e rfl, hsharp⟩ (fun c hc => hlast c (by simpa using hc)) hplain'
        (hright.imp_right fun h => by rw [column_advance]; omega)
        (fun h => by rw [column_advance] at h; omega) hlater, advance_advance]
      simp [Fold.text, Nat.add_assoc, Nat.add_comm, Nat.add_left_comm]

/-- A plain text on one line. -/
theorem plainScalar?_text (hends : EndsWord flow (d :: tail)) (hd : isGap d = false)
    (hbreak : isBreak d = false) (hgap : ∀ c ∈ gap, isGap c = true)
    (hfirst : ∃ c ∈ text.head?, isGap c = false ∧ c ≠ '#')
    (hlast : ∀ c ∈ text.getLast?, isGap c = false) (hplain : isPlain text = true) {indent : Nat}
    (hright : flow = true ∨ indent ≤ cur.column + 1)
    (hmark : cur.column = 0 → atDocumentMark cur.rest = false)
    (hrest : cur.rest = text ++ (gap ++ d :: tail)) :
    plainScalar? flow indent cur = some (text, false, cur.advance (text.length + gap.length)) := by
  rw [plainScalar?, plainBody?_text hends hd hbreak hgap indent (by simp [hrest]; omega) hfirst hlast
    hplain hright hmark hrest]
  rfl

end CompilerRemarks.Yaml
