/-
  CompilerRemarks.Proofs.ShellWords

  Quoting and splitting are inverse. A word is written in chunks, each bare,
  in single or in double quotes, and a splitter that stands in a word takes
  each chunk for the characters it was written for (`splitFrom_writeChunk`).
  So a joined line splits into the words that were joined, whatever follows it
  behind a blank (`splitFrom_joined`).
-/
import CompilerRemarks.Proofs.Text.Blank
import CompilerRemarks.ShellWords

namespace CompilerRemarks.ShellWords

variable {acc s rest : List Char}

/-! ## One character -/

theorem splitFrom_of_step {st next : State} {c : Char} (h : st.step c = (none, next))
    (rest : List Char) : splitFrom st (c :: rest) = splitFrom next rest := by
  rw [splitFrom, h]

theorem splitFrom_of_step_end {st next : State} {c : Char} {w : List Char}
    (h : st.step c = (some w, next)) (rest : List Char) :
    splitFrom st (c :: rest) = (splitFrom next rest).map (w :: ·) := by
  rw [splitFrom, h]

/-- A bare character means itself wherever it stands. -/
theorem isBare_plain {c : Char} (h : isBare c = true) :
    isSeparator c = false ∧ c ≠ '#' ∧ c ≠ '"' ∧ c ≠ '\'' ∧ c ≠ '\\' := by
  have hne : ∀ d : Char, isBare d = false → c ≠ d := by
    rintro d hd rfl
    rw [hd] at h
    exact Bool.false_ne_true h
  refine ⟨?_, hne '#' (by decide), hne '"' (by decide), hne '\'' (by decide), hne '\\' (by decide)⟩
  simp [isSeparator, hne ' ' (by decide), hne '\t' (by decide), hne '\n' (by decide)]

theorem isBlank_of_isBare {c : Char} (h : isBare c = true) : Text.isBlank c = false := by
  have hrange : 43 ≤ c.toNat ∧ c.toNat ≤ 122 := by
    simp only [isBare, Bool.or_eq_true, Bool.and_eq_true, decide_eq_true_eq, beq_iff_eq,
      Char.le_def, UInt32.le_iff_toNat_le] at h
    rcases h with ((((((((((⟨hlo, hhi⟩ | ⟨hlo, hhi⟩) | ⟨hlo, hhi⟩) | rfl) | rfl) | rfl) | rfl) |
      rfl) | rfl) | rfl) | rfl)
    any_goals decide
    -- what is left are the digits and the two cases of letters
    all_goals exact ⟨Nat.le_trans (by decide) hlo, Nat.le_trans hhi (by decide)⟩
  simp only [Text.isBlank, Bool.or_eq_false_iff, Bool.and_eq_false_iff, decide_eq_false_iff_not,
    beq_eq_false_iff_ne]
  omega

/-! ## Chunks -/

theorem splitFrom_bare (h : ∀ c ∈ s, isBare c = true) (acc rest : List Char) :
    splitFrom (.word acc) (s ++ rest) = splitFrom (.word (s.reverse ++ acc)) rest := by
  induction s generalizing acc with
  | nil => rfl
  | cons c s ih =>
    obtain ⟨hsep, -, hdouble, hsingle, hslash⟩ := isBare_plain (h c List.mem_cons_self)
    have hstep : (State.word acc).step c = (none, .word (c :: acc)) := by
      simp [State.step, State.inWord, hsep, hdouble, hsingle, hslash]
    rw [List.cons_append, splitFrom_of_step hstep, ih fun d hd => h d (List.mem_cons_of_mem c hd),
      List.reverse_cons, List.append_assoc, List.singleton_append]

theorem splitFrom_single (h : ∀ c ∈ s, c ≠ '\'') (acc rest : List Char) :
    splitFrom (.single acc) (s ++ rest) = splitFrom (.single (s.reverse ++ acc)) rest := by
  induction s generalizing acc with
  | nil => rfl
  | cons c s ih =>
    have hstep : (State.single acc).step c = (none, .single (c :: acc)) := by
      simp [State.step, h c List.mem_cons_self]
    rw [List.cons_append, splitFrom_of_step hstep, ih fun d hd => h d (List.mem_cons_of_mem c hd),
      List.reverse_cons, List.append_assoc, List.singleton_append]

/-- Any character can stand in double quotes, behind a backslash if it needs one. -/
theorem splitFrom_escapeDouble (c : Char) (acc rest : List Char) :
    splitFrom (.double acc) (escapeDouble c ++ rest) = splitFrom (.double (c :: acc)) rest := by
  cases hescapable : isEscapable c with
  | true =>
    have hbreak : c ≠ '\n' := by
      rintro rfl
      exact absurd hescapable (by decide)
    have hslash : (State.double acc).step '\\' = (none, .doubleEscaped acc) := rfl
    have hstep : (State.doubleEscaped acc).step c = (none, .double (c :: acc)) := by
      simp [State.step, hescapable, hbreak]
    rw [escapeDouble, if_pos hescapable, List.cons_append, List.cons_append, List.nil_append,
      splitFrom_of_step hslash, splitFrom_of_step hstep]
  | false =>
    have hne : ∀ d : Char, isEscapable d = true → c ≠ d := by
      rintro d hd rfl
      rw [hd] at hescapable
      exact Bool.false_ne_true hescapable.symm
    have hstep : (State.double acc).step c = (none, .double (c :: acc)) := by
      simp [State.step, hne '"' (by decide), hne '\\' (by decide)]
    rw [escapeDouble, if_neg (by simp [hescapable]), List.singleton_append, splitFrom_of_step hstep]

theorem splitFrom_double (s acc rest : List Char) :
    splitFrom (.double acc) (s.flatMap escapeDouble ++ rest) =
      splitFrom (.double (s.reverse ++ acc)) rest := by
  induction s generalizing acc with
  | nil => rfl
  | cons c s ih =>
    rw [List.flatMap_cons, List.append_assoc, splitFrom_escapeDouble, ih, List.reverse_cons,
      List.append_assoc, List.singleton_append]

/-- The ways in which a text can be written: bare if all its characters are,
    in single quotes if it has no such quote. -/
structure Ways.Fit (ways : Ways) (s : List Char) : Prop where
  bare : ways.bare = true → ∀ c ∈ s, isBare c = true
  single : ways.single = true → ∀ c ∈ s, c ≠ '\''

/-- A chunk is read as the text that it was written for. -/
theorem splitFrom_writeChunk {ways : Ways} (h : ways.Fit s) (acc rest : List Char) :
    splitFrom (.word acc) (writeChunk ways s ++ rest) =
      splitFrom (.word (s.reverse ++ acc)) rest := by
  have hopenSingle : (State.word acc).step '\'' = (none, .single acc) := rfl
  have hcloseSingle : (State.single (s.reverse ++ acc)).step '\'' =
      (none, .word (s.reverse ++ acc)) := rfl
  have hopenDouble : (State.word acc).step '"' = (none, .double acc) := rfl
  have hcloseDouble : (State.double (s.reverse ++ acc)).step '"' =
      (none, .word (s.reverse ++ acc)) := rfl
  rw [writeChunk]
  split
  case isTrue hbare => exact splitFrom_bare (h.bare hbare) acc rest
  case isFalse =>
    split
    case isTrue hsingle =>
      rw [List.cons_append, List.cons_append, List.append_assoc, splitFrom_of_step hopenSingle,
        splitFrom_single (h.single hsingle), List.singleton_append, splitFrom_of_step hcloseSingle]
    case isFalse =>
      rw [List.cons_append, List.cons_append, List.append_assoc, splitFrom_of_step hopenDouble,
        splitFrom_double, List.singleton_append, splitFrom_of_step hcloseDouble]

/-! ## Words -/

theorem Ways.Fit.after {ways : Ways} (h : ways.Fit s) (c : Char) :
    (ways.after c).Fit (s ++ [c]) := by
  constructor
  · intro hbare d hd
    obtain ⟨hways, hc⟩ := Bool.and_eq_true_iff.mp hbare
    rcases List.mem_append.mp hd with hd | hd
    · exact h.bare hways d hd
    · rwa [List.mem_singleton.mp hd]
  · intro hsingle d hd
    obtain ⟨hways, hc⟩ := Bool.and_eq_true_iff.mp hsingle
    rcases List.mem_append.mp hd with hd | hd
    · exact h.single hways d hd
    · rw [List.mem_singleton.mp hd]
      rintro rfl
      exact absurd hc (by decide)

/-- A chunk is a start of the text, and its ways fit what stood before it
    with the chunk behind. -/
theorem chunk_fit {ways : Ways} {before : List Char} (h : ways.Fit before) (s : List Char) :
    (chunk ways s).1 ++ (chunk ways s).2.2 = s ∧
      (chunk ways s).2.1.Fit (before ++ (chunk ways s).1) := by
  induction s generalizing ways before with
  | nil => exact ⟨rfl, by rwa [chunk, List.append_nil]⟩
  | cons c s ih =>
    rw [chunk]
    split
    · exact ⟨rfl, by rwa [List.append_nil]⟩
    · obtain ⟨hparts, hfit⟩ := ih (h.after c)
      rw [List.append_assoc, List.singleton_append] at hfit
      exact ⟨congrArg (c :: ·) hparts, hfit⟩

/-- What is written for a word starts with a chunk that is not empty. -/
theorem quoteChunks_cons (fuel : Nat) (c : Char) (word : List Char) :
    ∃ ways taken left, word = taken ++ left ∧ ways.Fit (c :: taken) ∧
      quoteChunks (fuel + 1) (c :: word) =
        writeChunk ways (c :: taken) ++ quoteChunks fuel left := by
  by_cases hcaret : c = '^'
  · subst hcaret
    have hstart : (⟨false, true, false⟩ : Ways).Fit ['^'] :=
      ⟨fun h => absurd h Bool.false_ne_true, fun _ d hd => by
        rw [List.mem_singleton.mp hd]; decide⟩
    obtain ⟨hparts, hfit⟩ := chunk_fit hstart word
    exact ⟨_, _, _, hparts.symm, hfit, rfl⟩
  · have hempty : (⟨true, true, true⟩ : Ways).Fit [] :=
      ⟨fun _ _ hd => absurd hd List.not_mem_nil, fun _ _ hd => absurd hd List.not_mem_nil⟩
    obtain ⟨hparts, hfit⟩ := chunk_fit (hempty.after c) word
    refine ⟨_, _, _, hparts.symm, hfit, ?_⟩
    rw [quoteChunks, if_neg (by simpa using hcaret)]

theorem splitFrom_quoteChunks {fuel : Nat} {word : List Char} (h : word.length ≤ fuel)
    (acc rest : List Char) :
    splitFrom (.word acc) (quoteChunks fuel word ++ rest) =
      splitFrom (.word (word.reverse ++ acc)) rest := by
  induction fuel generalizing word acc with
  | zero =>
    rw [List.eq_nil_of_length_eq_zero (Nat.le_zero.mp h)]
    rfl
  | succ fuel ih =>
    cases word with
    | nil => rfl
    | cons c word =>
      -- the first chunk takes at least one character, so the fuel lasts for the others
      obtain ⟨ways, taken, left, rfl, hfit, hquote⟩ := quoteChunks_cons fuel c word
      have hleft : left.length ≤ fuel := by
        simp only [List.length_cons, List.length_append] at h
        omega
      rw [hquote, List.append_assoc, splitFrom_writeChunk hfit, ih hleft, ← List.append_assoc,
        ← List.reverse_append, List.cons_append]

/-- A quoted word is read as that word. -/
theorem splitFrom_quote (word acc rest : List Char) :
    splitFrom (.word acc) (quote word ++ rest) = splitFrom (.word (word.reverse ++ acc)) rest := by
  rw [quote]
  split
  case isTrue hempty =>
    rw [List.isEmpty_iff.mp hempty]
    rfl
  case isFalse => exact splitFrom_quoteChunks (Nat.le_refl _) acc rest

/-! ## The ends of a quoted word -/

/-- The first character of a quoted word starts a word, and no comment. -/
theorem head_writeChunk {ways : Ways} {c : Char} (h : ways.Fit (c :: s)) :
    ∃ d rest, writeChunk ways (c :: s) = d :: rest ∧ isSeparator d = false ∧ d ≠ '#' := by
  rw [writeChunk]
  split
  case isTrue hbare =>
    obtain ⟨hsep, hhash, -⟩ := isBare_plain (h.bare hbare c List.mem_cons_self)
    exact ⟨c, s, rfl, hsep, hhash⟩
  case isFalse =>
    split
    · exact ⟨'\'', _, rfl, by decide, by decide⟩
    · exact ⟨'"', _, rfl, by decide, by decide⟩

theorem head_quote (word : List Char) :
    ∃ d rest, quote word = d :: rest ∧ isSeparator d = false ∧ d ≠ '#' := by
  cases word with
  | nil => exact ⟨'\'', ['\''], rfl, by decide, by decide⟩
  | cons c word =>
    obtain ⟨ways, taken, left, -, hfit, hquote⟩ := quoteChunks_cons word.length c word
    obtain ⟨d, rest, hwrite, hplain⟩ := head_writeChunk hfit
    exact ⟨d, rest ++ quoteChunks word.length left, by
      rw [quote, List.isEmpty_cons, if_neg Bool.false_ne_true, List.length_cons, hquote, hwrite,
        List.cons_append], hplain⟩

/-- The last character of a quoted word is no blank, so that trimming a line
    takes nothing off its last word. -/
theorem getLast_writeChunk {ways : Ways} (h : ways.Fit s) :
    ∀ c ∈ (writeChunk ways s).getLast?, Text.isBlank c = false := by
  intro c hc
  rw [writeChunk] at hc
  split at hc
  case isTrue hbare => exact isBlank_of_isBare (h.bare hbare c (List.mem_of_getLast? hc))
  case isFalse =>
    split at hc <;> rw [List.getLast?_concat] at hc <;> cases hc <;> decide

theorem getLast_quoteChunks (fuel : Nat) (word : List Char) :
    ∀ c ∈ (quoteChunks fuel word).getLast?, Text.isBlank c = false := by
  induction fuel generalizing word with
  | zero => exact fun c hc => nomatch hc
  | succ fuel ih =>
    cases word with
    | nil => exact fun c hc => nomatch hc
    | cons c word =>
      obtain ⟨ways, taken, left, -, hfit, hquote⟩ := quoteChunks_cons fuel c word
      intro d hd
      rw [hquote, List.getLast?_append, Option.mem_def, Option.or_eq_some_iff] at hd
      rcases hd with hd | ⟨-, hd⟩
      · exact ih left d hd
      · exact getLast_writeChunk hfit d hd

theorem getLast_quote (word : List Char) :
    ∀ c ∈ (quote word).getLast?, Text.isBlank c = false := by
  rw [quote]
  split
  · intro c hc
    cases hc
    decide
  · exact getLast_quoteChunks _ word

/-! ## Lines -/

/-- Between words, a quoted word starts a new one. -/
theorem splitFrom_between_quote (word rest : List Char) :
    splitFrom .between (quote word ++ rest) = splitFrom (.word word.reverse) rest := by
  obtain ⟨d, tail, hquote, hsep, hhash⟩ := head_quote word
  have hstep : State.between.step d = (none, .inWord [] d) := by
    simp [State.step, hsep, hhash]
  have hword : (State.word []).step d = (none, .inWord [] d) := by
    simp [State.step, hsep]
  have hread := splitFrom_quote word [] rest
  rw [List.append_nil] at hread
  rw [← hread, hquote, List.cons_append, splitFrom_of_step hstep, splitFrom_of_step hword]

/-- Words quoted and joined by blanks. -/
def joined (words : List (List Char)) : List Char :=
  [' '].intercalate (words.map quote)

theorem joined_cons_cons (w v : List Char) (words : List (List Char)) :
    joined (w :: v :: words) = quote w ++ ' ' :: joined (v :: words) := by
  simp [joined, List.intercalate_cons_cons]

/-- A joined line is read as its words. What follows it must end the last
    word: it is empty, or a blank comes first. -/
theorem splitFrom_joined {words : List (List Char)} (hne : words ≠ []) {rest : List Char}
    {more : Option (List (List Char))}
    (hrest : ∀ acc, splitFrom (.word acc) rest = more.map (acc.reverse :: ·)) :
    splitFrom .between (joined words ++ rest) = more.map (words ++ ·) := by
  induction words with
  | nil => exact absurd rfl hne
  | cons w words ih =>
    cases words with
    | nil =>
      rw [joined, List.map_singleton, List.intercalate_singleton, splitFrom_between_quote, hrest,
        List.reverse_reverse]
      rfl
    | cons v words =>
      have hend : (State.word w.reverse).step ' ' = (some w, .between) := by
        simp [State.step, isSeparator]
      rw [joined_cons_cons, List.append_assoc, splitFrom_between_quote, List.cons_append,
        splitFrom_of_step_end hend, ih (List.cons_ne_nil v words), Option.map_map]
      rfl

theorem splitFrom_word_nil (acc : List Char) :
    splitFrom (.word acc) [] = (some []).map (acc.reverse :: ·) := rfl

theorem splitFrom_word_blank (acc rest : List Char) :
    splitFrom (.word acc) (' ' :: rest) = (splitFrom .between rest).map (acc.reverse :: ·) :=
  rfl

theorem joined_ne_nil {words : List (List Char)} (hne : words ≠ []) : joined words ≠ [] := by
  intro hnil
  have hread := splitFrom_joined hne splitFrom_word_nil
  rw [hnil, Option.map_some, List.append_nil, List.append_nil] at hread
  exact hne (Option.some.inj hread).symm

theorem getLast_joined (words : List (List Char)) :
    ∀ c ∈ (joined words).getLast?, Text.isBlank c = false := by
  induction words with
  | nil => exact fun c hc => nomatch hc
  | cons w words ih =>
    cases words with
    | nil =>
      rw [joined, List.map_singleton, List.intercalate_singleton]
      exact getLast_quote w
    | cons v words =>
      intro c hc
      have hrest : joined (v :: words) ≠ [] := joined_ne_nil (List.cons_ne_nil v words)
      rw [joined_cons_cons, List.append_cons, List.getLast?_append,
        List.getLast?_eq_some_getLast hrest, Option.some_or] at hc
      exact ih c (List.getLast?_eq_some_getLast hrest ▸ hc)

theorem join?_eq_some {words : List String} (hnul : ∀ w ∈ words, '\x00' ∉ w.toList) :
    join? words = some (String.ofList (joined (words.map String.toList))) := by
  have hany : (words.any fun w => w.toList.contains '\x00') = false := by
    rw [List.any_eq_false]
    intro w hw
    simpa using hnul w hw
  have hline : " ".intercalate (words.map fun w => String.ofList (quote w.toList)) =
      String.ofList (joined (words.map String.toList)) := by
    have hwords : (words.map fun w => String.ofList (quote w.toList)).map String.toList =
        (words.map String.toList).map quote := by
      rw [List.map_map, List.map_map]
      exact List.map_congr_left fun w _ => String.toList_ofList
    have hline := String.toList_intercalate (s := " ")
      (l := words.map fun w => String.ofList (quote w.toList))
    rw [hwords] at hline
    exact String.toList_inj.mp (hline.trans String.toList_ofList.symm)
  rw [join?, hany, if_neg Bool.false_ne_true, hline]

/-- What words are joined to splits into them. -/
theorem split?_joined {words : List String} (hne : words ≠ []) :
    split? (String.ofList (joined (words.map String.toList))) = some words := by
  have hne' : words.map String.toList ≠ [] := mt List.map_eq_nil_iff.mp hne
  have hread := splitFrom_joined hne' splitFrom_word_nil
  rw [List.append_nil] at hread
  rw [split?, String.toList_ofList, hread]
  simp

end CompilerRemarks.ShellWords
