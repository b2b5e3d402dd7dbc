/-
  CompilerRemarks.Proofs.Yaml.Scalar

  Scalars may go over several lines, but each reader knows where its scalar
  ends before it looks at a line that starts further left. So what is read is
  the same whatever line follows, with one exception: a plain scalar in a flow
  collection, or outside of every block, may go on in it.
-/
import CompilerRemarks.Proofs.Yaml.Property

namespace CompilerRemarks.Yaml

open Cursor

variable {z : List Char} {cur next : Cursor} {c : Char} {tail : List Char}

/-! ## Folding -/

theorem Fold.read?_cons (hrest : cur.rest = c :: tail) (indent n : Nat) (f : Fold) :
    Fold.read? indent (n + 1) f cur =
      if isGap c then
        if f.broken then
          if c == '\t' && cur.column < indent then none
          else Fold.read? indent n f (cur.advance 1)
        else Fold.read? indent n { f with blanks := f.blanks ++ [c] } (cur.advance 1)
      else if isBreak c then
        if f.broken then
          Fold.read? indent n { f with more := f.more ++ cur.readBreak.1 } cur.readBreak.2
        else Fold.read? indent n ⟨[], true, cur.readBreak.1, f.more⟩ cur.readBreak.2
      else some (f, cur) := by
  simp only [Fold.read?, hrest]

theorem Fold.read?_nil (hrest : cur.rest = []) (indent n : Nat) (f : Fold) :
    Fold.read? indent n f cur = some (f, cur) := by
  cases n with
  | zero => rfl
  | succ n => simp only [Fold.read?, hrest]

/-- What is known of the place behind a fold that was `f` at `cur` and is `fold` there. -/
structure Fold.Leaves (f : Fold) (cur : Cursor) (fold : Fold) (next : Cursor) : Prop where
  lined : next.Lined
  short : next.rest.length ≤ cur.rest.length
  broken : f.broken = true → fold.broken = true
  /-- A line starts only behind a break. -/
  starts : next.column = 0 → fold.broken = true ∨ cur.column = 0

namespace Fold.Leaves

variable {f g fold : Fold}

theorem refl (h : cur.Lined) : Leaves f cur f cur where
  lined := h
  short := Nat.le_refl _
  broken := id
  starts := .inr

/-- Behind a blank no line starts. -/
theorem behind_gap (h : Leaves g (cur.advance 1) fold next)
    (hg : f.broken = true → g.broken = true) : Leaves f cur fold next where
  lined := h.lined
  short := h.short.trans (by simp)
  broken hf := h.broken (hg hf)
  starts hnext := .inl ((h.starts hnext).resolve_right (by simp))

/-- From a break on, the fold has one. -/
theorem behind_break (h : Leaves g cur.readBreak.2 fold next) (hrest : cur.rest = c :: tail)
    (hc : isBreak c = true) (hg : g.broken = true) : Leaves f cur fold next where
  lined := h.lined
  short := h.short.trans (length_readBreak hrest hc).le
  broken _ := h.broken hg
  starts _ := .inl (h.broken hg)

end Fold.Leaves

/-- What is folded with fuel `n`, is folded with fuel `m` as well if the text goes on with `z`. -/
def FoldOnto (z : List Char) (indent n m : Nat) (f : Fold) (cur : Cursor) : Prop :=
  ∀ ⦃fold : Fold⦄ ⦃next : Cursor⦄, Fold.read? indent n f cur = some (fold, next) →
    Fold.read? indent m f (cur.onto z) = some (fold, next.onto z) ∧ Fold.Leaves f cur fold next

section FoldStep

variable {indent n m : Nat}

/-- A blank of the line is stepped over. -/
theorem foldOnto_gap (hrest : cur.rest = c :: tail) (hgap : isGap c = true)
    (ih : ∀ g, FoldOnto z indent n m g (cur.advance 1)) (f : Fold) :
    FoldOnto z indent (n + 1) (m + 1) f cur := by
  intro fold next hread
  have hrest' : (cur.onto z).rest = c :: (tail ++ z) := by simp [hrest]
  rw [Fold.read?_cons hrest, if_pos hgap] at hread
  rw [Fold.read?_cons hrest', if_pos hgap, column_onto, onto_advance_one hrest]
  split at hread
  · rename_i hf
    rw [if_pos hf]
    split at hread
    · cases hread
    · rename_i htab
      obtain ⟨hother, hleaves⟩ := ih _ hread
      rw [if_neg htab]
      exact ⟨hother, hleaves.behind_gap id⟩
  · rename_i hf
    obtain ⟨hother, hleaves⟩ := ih _ hread
    rw [if_neg hf]
    exact ⟨hother, hleaves.behind_gap fun hbroken => absurd hbroken hf⟩

/-- A break is stepped over to the next line. -/
theorem foldOnto_break (hline : cur.InLine) (hrest : cur.rest = c :: tail) (hgap : ¬ isGap c = true)
    (hbreak : isBreak c = true) (ih : ∀ g, FoldOnto z indent n m g cur.readBreak.2) (f : Fold) :
    FoldOnto z indent (n + 1) (m + 1) f cur := by
  intro fold next hread
  have hrest' : (cur.onto z).rest = c :: (tail ++ z) := by simp [hrest]
  rw [Fold.read?_cons hrest, if_neg hgap, if_pos hbreak] at hread
  rw [Fold.read?_cons hrest', if_neg hgap, if_pos hbreak, hline.readBreak_onto]
  split at hread
  · rename_i hf
    obtain ⟨hother, hleaves⟩ := ih _ hread
    rw [if_pos hf]
    exact ⟨hother, hleaves.behind_break hrest hbreak hf⟩
  · rename_i hf
    obtain ⟨hother, hleaves⟩ := ih _ hread
    rw [if_neg hf]
    exact ⟨hother, hleaves.behind_break hrest hbreak rfl⟩

/-- Before a word, a fold is over. -/
theorem Fold.read?_stop (hword : ∀ c ∈ cur.rest.head?, isGap c = false ∧ isBreak c = false)
    (indent n : Nat) (f : Fold) : Fold.read? indent n f cur = some (f, cur) := by
  cases hrest : cur.rest with
  | nil => exact Fold.read?_nil hrest indent n f
  | cons c tail =>
    obtain ⟨hgap, hbreak⟩ := hword c (by simp [hrest])
    cases n with
    | zero => rfl
    | succ n =>
      rw [Fold.read?_cons hrest, hgap, hbreak]
      rfl

end FoldStep

/-- A fold ends before the next word, which may start a line only behind a break. -/
theorem Fold.read?_onto (hmore : StartsToken z) (indent : Nat) :
    ∀ {n m : Nat} {f : Fold} {cur : Cursor},
      cur.rest.length < n → cur.rest.length + z.length < m → cur.Lined →
      FoldOnto z indent n m f cur := by
  intro n
  induction n with
  | zero =>
    intro m f cur hn
    omega
  | succ n ih =>
    intro m f cur hn hm h
    obtain ⟨m, rfl⟩ : ∃ k, m = k + 1 := ⟨m - 1, by omega⟩
    -- a word stops the fold here and where the text goes on
    have hstop : (∀ c ∈ cur.rest.head?, isGap c = false ∧ isBreak c = false) →
        (∀ c ∈ (cur.onto z).rest.head?, isGap c = false ∧ isBreak c = false) →
        FoldOnto z indent (n + 1) (m + 1) f cur := by
      intro hword hword' fold next hread
      rw [Fold.read?_stop hword] at hread
      cases hread
      exact ⟨Fold.read?_stop hword' indent (m + 1) f, .refl h⟩
    rcases h with hline | ⟨hrest, hcolumn⟩
    · obtain ⟨c, tail, hrest⟩ := hline.exists_cons
      by_cases hgap : isGap c = true
      · have hfeed : c ≠ '\n' := by
          rintro rfl
          cases hgap
        have hshort : (cur.advance 1).rest.length < cur.rest.length := by simp [hrest]
        exact foldOnto_gap hrest hgap
          (fun g => ih (by omega) (by omega) (.inl (hline.advance_one hrest hfeed))) f
      · by_cases hbreak : isBreak c = true
        · have hshort := length_readBreak hrest hbreak
          exact foldOnto_break hline hrest hgap hbreak
            (fun g => ih (by omega) (by omega) (hline.lined_readBreak hrest hbreak)) f
        · rw [Bool.not_eq_true] at hgap hbreak
          exact hstop (by simp [hrest, hgap, hbreak]) (by simp [hrest, hgap, hbreak])
    · obtain ⟨c, tail, rfl, hgap, hbreak, -, -⟩ := hmore
      exact hstop (by simp [hrest]) (by simp [hrest, hgap, hbreak])

/-! ## Quoted scalars -/

theorem quotedWord?_gap (h : atGap cur.rest = true) (single : Bool) (n : Nat) (acc : List Char) :
    quotedWord? single (n + 1) acc cur = some (acc, .plain, cur) := by
  rw [quotedWord?, if_pos h]

theorem quotedWord?_single (hrest : cur.rest = c :: tail) (hgap : atGap cur.rest = false) (n : Nat)
    (acc : List Char) :
    quotedWord? true (n + 1) acc cur =
      if c = '\'' then
        if tail.head? = some '\'' then quotedWord? true n ('\'' :: acc) (cur.advance 2)
        else some (acc, .plain, cur)
      else quotedWord? true n (c :: acc) (cur.advance 1) := by
  rw [hrest] at hgap
  by_cases hc : c = '\''
  · subst hc
    cases tail with
    | nil => simp [quotedWord?, hgap, hrest]
    | cons d rest =>
      by_cases hd : d = '\''
      · subst hd
        simp [quotedWord?, hgap, hrest]
      · simp [quotedWord?, hgap, hrest, hd]
  · simp [quotedWord?, hgap, hrest, hc]

theorem quotedWord?_double (hrest : cur.rest = c :: tail) (hgap : atGap cur.rest = false) (n : Nat)
    (acc : List Char) (hc : c ≠ '\\') :
    quotedWord? false (n + 1) acc cur =
      if c = '"' then some (acc, .plain, cur)
      else quotedWord? false n (c :: acc) (cur.advance 1) := by
  rw [quotedWord?, hgap]
  simp only [hrest, Bool.false_eq_true, if_false, beq_iff_eq, if_neg hc]

theorem quotedWord?_escape {e : Char} {rest : List Char} (hrest : cur.rest = '\\' :: e :: rest)
    (n : Nat) (acc : List Char) :
    quotedWord? false (n + 1) acc cur =
      if isBreak e then some (acc, .escapedBreak, (cur.advance 1).readBreak.2)
      else (escape? cur e).bind fun (x, next) => quotedWord? false n (x :: acc) next := by
  have hgap : atGap ('\\' :: e :: rest) = false := rfl
  cases hread : escape? cur e <;> simp [quotedWord?, hgap, hrest, hread]

/-- An escape is read from one line. -/
theorem escape?_onto (h : cur.InLine) {e x : Char} {rest : List Char}
    (hrest : cur.rest = c :: e :: rest) (hc : c ≠ '\n') (he : e ≠ '\n')
    (hread : escape? cur e = some (x, next)) :
    escape? (cur.onto z) e = some (x, next.onto z) ∧ next.InLine ∧
      next.rest.length < cur.rest.length := by
  rw [escape?] at hread ⊢
  split at hread
  · cases hread
    have hless : (cur.advance 2).rest.length < cur.rest.length := by
      rw [rest_advance, List.length_drop, hrest, List.length_cons, List.length_cons]
      omega
    refine ⟨?_, h.advance (by simp [hrest, hc, he]), hless⟩
    rw [onto_advance (by simp [hrest])]
  · split at hread
    · cases hread
    · rename_i width hwidth
      simp only [hrest, List.drop_succ_cons, List.drop_zero] at hread
      split at hread
      · cases hread
      · rename_i hlong
        have htaken : rest.take width = (rest ++ z).take width := by
          rw [List.take_append_of_le_length]
          simp only [List.length_take] at hlong
          omega
        have hlength : 2 + width ≤ cur.rest.length := by
          simp only [List.length_take] at hlong
          simp only [hrest, List.length_cons]
          omega
        rw [Option.map_eq_some_iff] at hread
        obtain ⟨y, hy, heq⟩ := hread
        cases heq
        obtain ⟨code, hcode, -⟩ := Option.bind_eq_some_iff.mp hy
        have hfeed := notMem_of_digits? hcode
        refine ⟨?_, h.advance ?_, ?_⟩
        · simp only [rest_onto, hrest, List.cons_append, List.drop_succ_cons, List.drop_zero,
            ← htaken, if_neg hlong, hy, Option.map_some, onto_advance hlength]
        · have htake : cur.rest.take (2 + width) = c :: e :: rest.take width := by
            rw [hrest, Nat.add_comm]
            rfl
          rw [htake]
          rintro d hd rfl
          simp only [List.mem_cons] at hd
          rcases hd with hd | hd | hd
          · exact hc hd.symm
          · exact he hd.symm
          · exact hfeed hd
        · simp only [rest_advance, List.length_drop]
          omega

/-- What the reader of a word finds with fuel `n`, it finds with fuel `m` as well if the
    text goes on with `z`. -/
def WordOnto (z : List Char) (single : Bool) (n m : Nat) (acc : List Char) (cur : Cursor) : Prop :=
  ∀ ⦃text : List Char⦄ ⦃ending : WordEnd⦄ ⦃next : Cursor⦄,
    quotedWord? single n acc cur = some (text, ending, next) →
    quotedWord? single m acc (cur.onto z) = some (text, ending, next.onto z) ∧
      next.Lined ∧ next.rest.length ≤ cur.rest.length

section WordStep

variable {n m : Nat} {single : Bool}

/-- The reader goes on behind a part of the line that is not empty. -/
theorem WordOnto.behind {there : Cursor} {acc acc' : List Char}
    (h : WordOnto z single n m acc' there) (hshort : there.rest.length < cur.rest.length)
    (hstep : quotedWord? single (n + 1) acc cur = quotedWord? single n acc' there)
    (hstep' : quotedWord? single (m + 1) acc (cur.onto z) =
      quotedWord? single m acc' (there.onto z)) : WordOnto z single (n + 1) (m + 1) acc cur := by
  intro text ending next hread
  rw [hstep] at hread
  rw [hstep']
  obtain ⟨hother, hlined, hle⟩ := h hread
  exact ⟨hother, hlined, by omega⟩

/-- The reader stops here. -/
theorem WordOnto.of_stop {acc : List Char} (hline : cur.InLine)
    (hstop : quotedWord? single (n + 1) acc cur = some (acc, .plain, cur))
    (hstop' : quotedWord? single (m + 1) acc (cur.onto z) = some (acc, .plain, cur.onto z)) :
    WordOnto z single (n + 1) (m + 1) acc cur := by
  intro text ending next hread
  rw [hstop] at hread
  cases hread
  exact ⟨hstop', .inl hline, Nat.le_refl _⟩

variable (ih : ∀ (acc : List Char) {there : Cursor}, there.InLine →
  there.rest.length < cur.rest.length → WordOnto z single n m acc there)

include ih

theorem wordOnto_single (hsingle : single = true) (hline : cur.InLine)
    (hgap : atGap cur.rest = false) (acc : List Char) :
    WordOnto z single (n + 1) (m + 1) acc cur := by
  subst hsingle
  obtain ⟨c, tail, hrest⟩ := hline.exists_cons
  have hrest' : (cur.onto z).rest = c :: (tail ++ z) := by simp [hrest]
  have hgap' : atGap (cur.onto z).rest = false := hline.atGap_onto.trans hgap
  have hfeed : c ≠ '\n' := by
    rintro rfl
    rw [hrest] at hgap
    cases hgap
  obtain ⟨init, htail⟩ := hline.tail_ne_nil hrest hfeed
  have hhead : (tail ++ z).head? = tail.head? := by
    rw [htail]
    cases init <;> rfl
  by_cases hquote : c = '\''
  · by_cases hdouble : tail.head? = some '\''
    · obtain ⟨rest, rfl⟩ := List.head?_eq_some_iff.mp hdouble
      have hless : (cur.advance 2).rest.length < cur.rest.length := by
        simp only [rest_advance, List.length_drop, hrest, List.length_cons]
        omega
      refine (ih ('\'' :: acc) (hline.advance (by simp [hrest, hfeed])) hless).behind hless ?_ ?_
      · rw [quotedWord?_single hrest hgap, if_pos hquote, if_pos hdouble]
      · rw [quotedWord?_single hrest' hgap', if_pos hquote, if_pos (hhead.trans hdouble),
          onto_advance (by simp [hrest])]
    · refine .of_stop hline ?_ ?_
      · rw [quotedWord?_single hrest hgap, if_pos hquote, if_neg hdouble]
      · rw [quotedWord?_single hrest' hgap', if_pos hquote, hhead, if_neg hdouble]
  · have hshort : (cur.advance 1).rest.length < cur.rest.length := by simp [hrest]
    refine (ih (c :: acc) (hline.advance_one hrest hfeed) hshort).behind hshort ?_ ?_
    · rw [quotedWord?_single hrest hgap, if_neg hquote]
    · rw [quotedWord?_single hrest' hgap', if_neg hquote, onto_advance_one hrest]

/-- Behind a backslash stands an escaped break, which ends the word, or an escape. -/
theorem wordOnto_escape (hsingle : single = false) (hline : cur.InLine)
    (hrest : cur.rest = '\\' :: tail) (acc : List Char) :
    WordOnto z single (n + 1) (m + 1) acc cur := by
  subst hsingle
  intro text ending next hread
  have hfeed : '\\' ≠ '\n' := by decide
  obtain ⟨init, htail⟩ := hline.tail_ne_nil hrest hfeed
  obtain ⟨e, rest, rfl⟩ : ∃ e rest, tail = e :: rest :=
    List.exists_cons_of_ne_nil (by simp [htail])
  have hrest' : (cur.onto z).rest = '\\' :: e :: (rest ++ z) := by simp [hrest]
  rw [quotedWord?_escape hrest] at hread
  rw [quotedWord?_escape hrest']
  split at hread
  · rename_i hbreak
    cases hread
    have hone : (cur.advance 1).InLine := hline.advance_one hrest hfeed
    have hnext : (cur.advance 1).rest = e :: rest := by simp [hrest]
    have hshort : (cur.advance 1).rest.length < cur.rest.length := by simp [hrest]
    have hlt := length_readBreak hnext hbreak
    rw [if_pos hbreak, onto_advance_one hrest, hone.readBreak_onto]
    exact ⟨rfl, hone.lined_readBreak hnext hbreak, by omega⟩
  · rename_i hbreak
    have he : e ≠ '\n' := by
      rintro rfl
      exact hbreak rfl
    obtain ⟨⟨x, there⟩, hescape, hread⟩ := Option.bind_eq_some_iff.mp hread
    obtain ⟨hother, hthere, hlt⟩ := escape?_onto (z := z) hline hrest hfeed he hescape
    obtain ⟨hword, hlined, hle⟩ := ih (x :: acc) hthere hlt hread
    rw [if_neg hbreak, hother, Option.bind_some]
    exact ⟨hword, hlined, by omega⟩

theorem wordOnto_double (hsingle : single = false) (hline : cur.InLine)
    (hgap : atGap cur.rest = false) (acc : List Char) :
    WordOnto z single (n + 1) (m + 1) acc cur := by
  obtain ⟨c, tail, hrest⟩ := hline.exists_cons
  by_cases hback : c = '\\'
  · subst hback
    exact wordOnto_escape ih hsingle hline hrest acc
  subst hsingle
  have hrest' : (cur.onto z).rest = c :: (tail ++ z) := by simp [hrest]
  have hgap' : atGap (cur.onto z).rest = false := hline.atGap_onto.trans hgap
  by_cases hquote : c = '"'
  · refine .of_stop hline ?_ ?_
    · rw [quotedWord?_double hrest hgap _ _ hback, if_pos hquote]
    · rw [quotedWord?_double hrest' hgap' _ _ hback, if_pos hquote]
  · have hfeed : c ≠ '\n' := by
      rintro rfl
      rw [hrest] at hgap
      cases hgap
    have hshort : (cur.advance 1).rest.length < cur.rest.length := by simp [hrest]
    refine (ih (c :: acc) (hline.advance_one hrest hfeed) hshort).behind hshort ?_ ?_
    · rw [quotedWord?_double hrest hgap _ _ hback, if_neg hquote]
    · rw [quotedWord?_double hrest' hgap' _ _ hback, if_neg hquote, onto_advance_one hrest]

end WordStep

/-- A word of a quoted scalar ends in its line, or behind the break that it escapes. -/
theorem quotedWord?_onto (single : Bool) :
    ∀ {n m : Nat} {acc : List Char} {cur : Cursor},
      cur.rest.length < n → cur.rest.length + z.length < m → cur.InLine →
      WordOnto z single n m acc cur := by
  intro n
  induction n with
  | zero =>
    intro m acc cur hn
    omega
  | succ n ih =>
    intro m acc cur hn hm hline
    obtain ⟨m, rfl⟩ : ∃ k, m = k + 1 := ⟨m - 1, by omega⟩
    have hgo : ∀ (acc : List Char) {there : Cursor}, there.InLine →
        there.rest.length < cur.rest.length → WordOnto z single n m acc there :=
      fun acc there hthere hshort => ih (by omega) (by omega) hthere
    by_cases hgap : atGap cur.rest = true
    · exact .of_stop hline (quotedWord?_gap hgap single n acc)
        (quotedWord?_gap (hline.atGap_onto.trans hgap) single m acc)
    · rw [Bool.not_eq_true] at hgap
      cases hsingle : single with
      | true => exact wordOnto_single (hsingle ▸ hgo) rfl hline hgap acc
      | false => exact wordOnto_double (hsingle ▸ hgo) rfl hline hgap acc

/-- A quoted scalar without its closing quote is an error. -/
theorem quotedBody?_nil (hrest : cur.rest = []) (single : Bool) (n : Nat) (acc : List Char) :
    quotedBody? single n acc cur = none := by
  cases n with
  | zero => rfl
  | succ n => simp [quotedBody?, hrest]

/-- The quote of a quoted scalar. -/
def quoteMark (single : Bool) : Char :=
  if single then '\'' else '"'

/-- The fold that starts behind a word: an escaped break counts as one without a text. -/
def WordEnd.fold : WordEnd → Fold
  | .plain => .empty
  | .escapedBreak => ⟨[], true, [], []⟩

/-- Behind a word stands the closing quote, or a fold and more of the scalar. -/
theorem quotedBody?_of_word {single : Bool} {acc word : List Char} {ending : WordEnd}
    {there : Cursor} (hmark : ¬ (cur.column == 0 && atDocumentMark cur.rest) = true)
    (hne : cur.rest ≠ [])
    (hword : quotedWord? single (cur.rest.length + 1) acc cur = some (word, ending, there))
    (n : Nat) :
    quotedBody? single (n + 1) acc cur =
      if there.isAt (quoteMark single) then some (word.reverse, there.advance 1)
      else (Fold.read? 0 (there.rest.length + 1) ending.fold there).bind fun (fold, later) =>
        quotedBody? single n (fold.text.reverse ++ word) later := by
  have hgo : ¬ ((cur.column == 0 && atDocumentMark cur.rest) || cur.rest.isEmpty) = true := by
    simpa [hne] using hmark
  rw [quotedBody?, if_neg hgo, hword]
  cases ending
  case plain =>
    dsimp only [WordEnd.fold, quoteMark]
    cases Fold.read? 0 (there.rest.length + 1) .empty there <;> rfl
  case escapedBreak =>
    dsimp only [WordEnd.fold, quoteMark]
    cases Fold.read? 0 (there.rest.length + 1) ⟨[], true, [], []⟩ there <;> rfl

/-- A quoted scalar ends in the line of its closing quote. -/
theorem quotedBody?_onto (hmore : StartsToken z) (single : Bool) :
    ∀ {n m : Nat} {acc text : List Char} {cur next : Cursor}, n ≤ m → cur.Lined →
      quotedBody? single n acc cur = some (text, next) →
      quotedBody? single m acc (cur.onto z) = some (text, next.onto z) ∧ next.InLine ∧
        0 < next.column := by
  intro n
  induction n with
  | zero =>
    intro m acc text cur next hle h hread
    cases hread
  | succ n ih =>
    intro m acc text cur next hle h hread
    obtain ⟨m, rfl⟩ : ∃ k, m = k + 1 := ⟨m - 1, by omega⟩
    have hne : cur.rest ≠ [] := by
      intro hnil
      rw [quotedBody?_nil hnil] at hread
      cases hread
    have hline : cur.InLine := h.inLine hne
    by_cases hmark : (cur.column == 0 && atDocumentMark cur.rest) = true
    · rw [quotedBody?, hmark] at hread
      cases hread
    have hmark' : ¬ ((cur.onto z).column == 0 && atDocumentMark (cur.onto z).rest) = true := by
      rwa [column_onto, rest_onto, hline.atDocumentMark_onto]
    cases hword : quotedWord? single (cur.rest.length + 1) acc cur with
    | none =>
      rw [quotedBody?, hword, ite_self] at hread
      cases hread
    | some read =>
      obtain ⟨word, ending, there⟩ := read
      obtain ⟨hother, hthere, -⟩ := quotedWord?_onto (z := z)
        (m := (cur.onto z).rest.length + 1) single (Nat.lt_succ_self _) (by simp) hline hword
      rw [quotedBody?_of_word hmark hne hword] at hread
      rw [quotedBody?_of_word hmark' (by simp [hne]) hother]
      -- behind an escaped break the text may end, but then no quote closes the scalar
      by_cases hend : there.rest = []
      · have hquote : there.isAt (quoteMark single) = false := by simp [isAt, hend]
        simp only [hquote, Bool.false_eq_true, if_false, Fold.read?_nil hend, Option.bind_some,
          quotedBody?_nil hend, reduceCtorEq] at hread
      · have hinside : there.InLine := hthere.inLine hend
        rw [isAt_onto hend]
        by_cases hquote : there.isAt (quoteMark single) = true
        · obtain ⟨hstep, hnext⟩ := hinside.advance_of_isAt (z := z) hquote
            (by cases single <;> decide)
          rw [if_pos hquote] at hread ⊢
          cases hread
          rw [hstep]
          exact ⟨rfl, hnext, Nat.succ_pos _⟩
        · rw [if_neg hquote] at hread ⊢
          obtain ⟨⟨fold, later⟩, hfold, hread⟩ := Option.bind_eq_some_iff.mp hread
          obtain ⟨hother', hleaves⟩ := Fold.read?_onto hmore 0
            (m := (there.onto z).rest.length + 1) (Nat.lt_succ_self _) (by simp) hthere hfold
          rw [hother', Option.bind_some]
          exact ih (by omega) hleaves.lined hread

theorem quoted?_onto (hmore : StartsToken z) {single : Bool} (h : cur.InLine)
    (hrest : cur.rest = c :: tail) (hc : c ≠ '\n') {text : List Char}
    (hread : quoted? single cur = some (text, next)) :
    quoted? single (cur.onto z) = some (text, next.onto z) ∧ next.InLine ∧
      0 < next.column := by
  rw [quoted?] at hread ⊢
  rw [onto_advance_one hrest]
  exact quotedBody?_onto hmore single (by simp) (.inl (h.advance_one hrest hc)) hread

/-! ## Plain scalars -/

theorem plainWord?_cons (hrest : cur.rest = c :: tail) (flow : Bool) (n : Nat) (acc : List Char) :
    plainWord? flow (n + 1) acc cur =
      if isGap c || isBreak c then some (acc, cur)
      else if flow && c == ':' && tail.head?.any fun d => isFlowMark d || d == '?' then none
      else if (c == ':' && atGap tail) || (flow && isFlowMark c) then some (acc, cur)
      else plainWord? flow n (c :: acc) (cur.advance 1) := by
  simp only [plainWord?, hrest]
  cases tail <;> rfl

/-- A word of a plain scalar ends in its line. -/
theorem plainWord?_onto (flow : Bool) :
    ∀ {n m : Nat} {acc word : List Char} {cur next : Cursor},
      cur.rest.length < n → cur.rest.length + z.length < m → cur.InLine →
      plainWord? flow n acc cur = some (word, next) →
      plainWord? flow m acc (cur.onto z) = some (word, next.onto z) ∧ next.InLine ∧
        next.column + acc.length = cur.column + word.length ∧
        next.rest.length + word.length = cur.rest.length + acc.length := by
  intro n
  induction n with
  | zero =>
    intro m acc word cur next hn
    omega
  | succ n ih =>
    intro m acc word cur next hn hm hline hread
    obtain ⟨m, rfl⟩ : ∃ k, m = k + 1 := ⟨m - 1, by omega⟩
    obtain ⟨c, tail, hrest⟩ := hline.exists_cons
    have hrest' : (cur.onto z).rest = c :: (tail ++ z) := by simp [hrest]
    rw [plainWord?_cons hrest] at hread
    rw [plainWord?_cons hrest']
    by_cases hend : (isGap c || isBreak c) = true
    · rw [if_pos hend] at hread ⊢
      cases hread
      exact ⟨rfl, hline, rfl, rfl⟩
    · rw [if_neg hend] at hread ⊢
      have hfeed : c ≠ '\n' := by
        rintro rfl
        exact hend rfl
      obtain ⟨init, htail⟩ := hline.tail_ne_nil hrest hfeed
      have hhead : (tail ++ z).head? = tail.head? := by
        rw [htail]
        cases init <;> rfl
      have hgap : atGap (tail ++ z) = atGap tail := by
        rw [htail]
        cases init <;> rfl
      rw [hhead, hgap]
      split at hread
      · cases hread
      · rename_i hmark
        rw [if_neg hmark]
        split at hread
        · rename_i hstop
          rw [if_pos hstop]
          cases hread
          exact ⟨rfl, hline, rfl, rfl⟩
        · rename_i hstop
          have hshort : (cur.advance 1).rest.length + 1 = cur.rest.length := by simp [hrest]
          rw [if_neg hstop, onto_advance_one hrest]
          obtain ⟨hother, hinside, hcolumn, hlength⟩ :=
            ih (m := m) (by omega) (by omega) (hline.advance_one hrest hfeed) hread
          rw [column_advance, List.length_cons] at hcolumn
          rw [List.length_cons] at hlength
          exact ⟨hother, hinside, by omega, by omega⟩

/-- Where a text ends, a plain scalar does. -/
theorem plainBody?_nil (hrest : cur.rest = []) (flow : Bool) (indent n : Nat) (acc : List Char)
    (fold : Fold) : plainBody? flow indent n acc fold cur = some (acc.reverse, fold.broken, cur) := by
  cases n with
  | zero => rfl
  | succ n => simp [plainBody?, plainWord?, hrest, atDocumentMark, isAt]

/-- What was read of a word stays. -/
theorem suffix_of_plainWord? (flow : Bool) {n : Nat} : ∀ {acc word : List Char} {cur next : Cursor},
    plainWord? flow n acc cur = some (word, next) → acc <:+ word := by
  induction n with
  | zero =>
    intro acc word cur next hread
    cases hread
    exact List.suffix_refl _
  | succ n ih =>
    intro acc word cur next hread
    cases hrest : cur.rest with
    | nil =>
      simp only [plainWord?, hrest, Option.some.injEq, Prod.mk.injEq] at hread
      exact hread.1 ▸ List.suffix_refl _
    | cons c tail =>
      rw [plainWord?_cons hrest] at hread
      split at hread
      · cases hread
        exact List.suffix_refl _
      · split at hread
        · cases hread
        · split at hread
          · cases hread
            exact List.suffix_refl _
          · exact (List.suffix_cons c acc).trans (ih hread)

/-- Whether no word of a plain scalar starts at the cursor. -/
def NoWord (flow : Bool) (cur : Cursor) : Prop :=
  (cur.column = 0 ∧ atDocumentMark cur.rest = true) ∨ cur.isAt '#' = true ∨
    ∃ next, plainWord? flow (cur.rest.length + 1) [] cur = some ([], next)

/-- Where a plain scalar may start, its first word does. -/
theorem not_noWord_of_startsPlain {flow : Bool} (hmark : ¬ (cur.column = 0 ∧
    atDocumentMark cur.rest = true)) (hstarts : Scanner.startsPlain flow cur.rest = true) :
    ¬ NoWord flow cur := by
  cases hrest : cur.rest with
  | nil =>
    rw [hrest] at hstarts
    cases hstarts
  | cons c tail =>
    have hsharp : c ≠ '#' := by
      rintro rfl
      rw [hrest] at hstarts
      cases flow <;> exact absurd hstarts (by simp [Scanner.startsPlain])
    rintro (h | h | ⟨next, h⟩)
    · exact hmark h
    · rw [isAt, hrest] at h
      exact hsharp (by simpa using h)
    · rw [plainWord?_cons hrest] at h
      have hgo : (isGap c || isBreak c) = false ∧
          ((c == ':' && atGap tail) || (flow && isFlowMark c)) = false := by
        simp only [hrest, Scanner.startsPlain, Bool.or_eq_true, Bool.and_eq_true,
          Bool.not_eq_true'] at hstarts
        rcases hstarts with (hother | ⟨hdash, -⟩) | ⟨⟨hflow, hmark⟩, hgap⟩
        · -- no other character
          simp [isFlowMark] at hother ⊢
          simp [hother]
        · rw [beq_iff_eq] at hdash
          subst hdash
          cases flow <;> exact ⟨rfl, rfl⟩
        · rw [hflow, hgap, Bool.and_false, Bool.false_and]
          rcases hmark with hmark | hmark <;>
            (rw [beq_iff_eq] at hmark; subst hmark; exact ⟨rfl, rfl⟩)
      rw [hgo.1, hgo.2] at h
      simp only [Bool.false_eq_true, if_false] at h
      split at h
      · cases h
      · exact absurd (suffix_of_plainWord? flow h).length_le (by simp)

/-- Whether no further word of a plain scalar is looked for at the cursor. -/
def stopsPlain (cur : Cursor) : Bool :=
  (cur.column == 0 && atDocumentMark cur.rest) || cur.isAt '#'

section PlainBody

variable {flow : Bool} {indent : Nat} {there later : Cursor} {fold fold' : Fold}

theorem plainBody?_of_stop (hstop : stopsPlain cur = true) (n : Nat) (acc : List Char) :
    plainBody? flow indent (n + 1) acc fold cur = some (acc.reverse, fold.broken, cur) := by
  rw [plainBody?]
  exact if_pos hstop

theorem plainBody?_of_no_word (hstop : stopsPlain cur = false)
    (hword : plainWord? flow (cur.rest.length + 1) [] cur = some ([], there)) (n : Nat)
    (acc : List Char) :
    plainBody? flow indent (n + 1) acc fold cur = some (acc.reverse, fold.broken, there) := by
  rw [stopsPlain] at hstop
  rw [plainBody?, hstop, hword]
  rfl

/-- Behind a word a plain scalar goes on if blanks or breaks follow. -/
theorem plainBody?_of_word (hstop : stopsPlain cur = false) {word behind : List Char} {d : Char}
    (hword : plainWord? flow (cur.rest.length + 1) [] cur = some (word, there)) (hne : word ≠ [])
    (hd : there.rest = d :: behind) (n : Nat) (acc : List Char) :
    plainBody? flow indent (n + 1) acc fold cur =
      if isGap d || isBreak d then
        (Fold.read? indent (there.rest.length + 1) .empty there).bind fun (fold', later) =>
          if !flow && later.column < indent then
            some ((word ++ fold.text.reverse ++ acc).reverse, fold'.broken, later)
          else plainBody? flow indent n (word ++ fold.text.reverse ++ acc) fold' later
      else some ((word ++ fold.text.reverse ++ acc).reverse, false, there) := by
  obtain ⟨c, word, rfl⟩ := List.exists_cons_of_ne_nil hne
  rw [stopsPlain] at hstop
  rw [plainBody?, hstop, hword]
  simp only [Bool.false_eq_true, if_false, hd]
  cases Fold.read? indent ((d :: behind).length + 1) .empty there <;> rfl

/-- A plain scalar goes on in a line of the text: where the text ends, one in a
    flow collection would end as well, and one in a block stands too far left. -/
theorem inLine_of_plainBody? (hlater : later.Lined) {n : Nat} {acc text : List Char}
    {broken : Bool} (hread : plainBody? flow indent n acc fold later = some (text, broken, next))
    (hright : ¬ (!flow && decide (later.column < indent)) = true)
    (hends : next.rest ≠ [] ∨ flow = false ∧ 0 < indent) : later.InLine := by
  refine hlater.inLine fun hnil => ?_
  rw [plainBody?_nil hnil] at hread
  cases hread
  obtain ⟨rfl, hindent⟩ := hends.resolve_left (by simp [hnil])
  have hzero := (hlater.resolve_left fun h => h.ne_nil hnil).2
  exact hright (by simp [hzero, hindent])

theorem stopsPlain_onto (hline : cur.InLine) : stopsPlain (cur.onto z) = stopsPlain cur := by
  rw [stopsPlain, column_onto, rest_onto, hline.atDocumentMark_onto, isAt_onto hline.ne_nil]
  rfl

/-- What a plain scalar that goes on to `next` with `broken` tells of its start. -/
structure PlainEnds (flow : Bool) (fold : Fold) (cur : Cursor) (broken : Bool) (next : Cursor) :
    Prop where
  lined : next.Lined
  /-- A line starts only behind a break, which may be the one before the scalar. -/
  starts : next.column = 0 →
    broken = true ∨ cur.column = 0 ∧ broken = fold.broken ∧ NoWord flow cur

/-- Behind the fold that follows its last word, a plain scalar is over. -/
theorem PlainEnds.of_leaves (h : Fold.Leaves .empty there fold' later)
    (hpos : there.column ≠ 0) : PlainEnds flow fold cur fold'.broken later where
  lined := h.lined
  starts hzero := .inl ((h.starts hzero).resolve_right hpos)

/-- A plain scalar that goes on behind a word ends as its rest does. -/
theorem PlainEnds.behind {broken : Bool} (hends : PlainEnds flow fold' later broken next)
    (h : Fold.Leaves .empty there fold' later) (hpos : there.column ≠ 0) :
    PlainEnds flow fold cur broken next where
  lined := hends.lined
  starts hzero := by
    refine .inl ?_
    rcases hends.starts hzero with hbroken | ⟨hcolumn, hbroken, -⟩
    · exact hbroken
    · rw [hbroken, (h.starts hcolumn).resolve_right hpos]

end PlainBody

/-- What is read of a plain scalar with fuel `n`, is read with fuel `m` as well if the text
    goes on with `z`: a scalar that does not go on up to the end of the text ends before it,
    and so does one in a block, which cannot go on at the left margin. -/
def PlainOnto (z : List Char) (flow : Bool) (indent n m : Nat) (acc : List Char) (fold : Fold)
    (cur : Cursor) : Prop :=
  ∀ ⦃text : List Char⦄ ⦃broken : Bool⦄ ⦃next : Cursor⦄,
    plainBody? flow indent n acc fold cur = some (text, broken, next) →
    (next.rest ≠ [] ∨ flow = false ∧ 0 < indent) →
    plainBody? flow indent m acc fold (cur.onto z) = some (text, broken, next.onto z) ∧
      PlainEnds flow fold cur broken next

/-- Behind a word, the scalar goes on in the line or ends. -/
theorem plainOnto_of_word (hmore : StartsToken z) {flow : Bool} {indent n m : Nat} {fold : Fold}
    (ih : ∀ (acc : List Char) (fold : Fold) {there : Cursor}, there.InLine →
      there.rest.length < cur.rest.length → PlainOnto z flow indent n m acc fold there)
    (hline : cur.InLine) (hstop : stopsPlain cur = false) {word : List Char} {there : Cursor}
    (hword : plainWord? flow (cur.rest.length + 1) [] cur = some (word, there)) (hne : word ≠ [])
    (acc : List Char) : PlainOnto z flow indent (n + 1) (m + 1) acc fold cur := by
  intro text broken next hread hends
  have hstop' := (stopsPlain_onto (z := z) hline).trans hstop
  obtain ⟨hother, hthere, hcolumn, hlength⟩ := plainWord?_onto (z := z)
    (m := (cur.onto z).rest.length + 1) flow (Nat.lt_succ_self _) (by simp) hline hword
  rw [List.length_nil] at hcolumn hlength
  have hlong := List.length_pos_iff.mpr hne
  have hpos : there.column ≠ 0 := by omega
  obtain ⟨d, behind, hd⟩ := hthere.exists_cons
  have hd' : (there.onto z).rest = d :: (behind ++ z) := by simp [hd]
  rw [plainBody?_of_word hstop hword hne hd] at hread
  rw [plainBody?_of_word hstop' hother hne hd']
  split at hread
  · rename_i hgap
    obtain ⟨⟨fold', later⟩, hfold, hread⟩ := Option.bind_eq_some_iff.mp hread
    obtain ⟨hfold', hleaves⟩ := Fold.read?_onto hmore indent
      (m := (there.onto z).rest.length + 1) (Nat.lt_succ_self _) (by simp) (.inl hthere) hfold
    have hshort := hleaves.short
    rw [if_pos hgap, hfold', Option.bind_some]
    dsimp only at hread
    split at hread
    · rename_i hleft
      cases hread
      exact ⟨if_pos hleft, .of_leaves hleaves hpos⟩
    · rename_i hright
      have hinside := inLine_of_plainBody? hleaves.lined hread hright hends
      obtain ⟨hother', hnext⟩ := ih _ _ hinside (by omega) hread hends
      exact ⟨(if_neg hright).trans hother', hnext.behind hleaves hpos⟩
  · rename_i hgap
    cases hread
    rw [if_neg hgap]
    exact ⟨rfl, .inl hthere, fun h => absurd h hpos⟩

theorem plainBody?_onto (hmore : StartsToken z) (flow : Bool) (indent : Nat) :
    ∀ {n m : Nat} {acc : List Char} {fold : Fold} {cur : Cursor},
      cur.rest.length < n → cur.rest.length + z.length < m → cur.InLine →
      PlainOnto z flow indent n m acc fold cur := by
  intro n
  induction n with
  | zero =>
    intro m acc fold cur hn
    omega
  | succ n ih =>
    intro m acc fold cur hn hm hline
    obtain ⟨m, rfl⟩ : ∃ k, m = k + 1 := ⟨m - 1, by omega⟩
    cases hstop : stopsPlain cur with
    | true =>
      intro text broken next hread hends
      rw [plainBody?_of_stop hstop] at hread
      cases hread
      refine ⟨plainBody?_of_stop ((stopsPlain_onto hline).trans hstop) m acc, .inl hline,
        fun hcolumn => .inr ⟨hcolumn, rfl, ?_⟩⟩
      have hcases : cur.column = 0 ∧ atDocumentMark cur.rest = true ∨ cur.isAt '#' = true := by
        simpa [stopsPlain] using hstop
      exact hcases.imp_right .inl
    | false =>
      cases hword : plainWord? flow (cur.rest.length + 1) [] cur with
      | none =>
        intro text broken next hread
        rw [stopsPlain] at hstop
        rw [plainBody?, hstop, hword] at hread
        cases hread
      | some read =>
        obtain ⟨word, there⟩ := read
        by_cases hne : word = []
        · subst hne
          intro text broken next hread hends
          obtain ⟨hother, hthere, hcolumn, -⟩ := plainWord?_onto (z := z)
            (m := (cur.onto z).rest.length + 1) flow (Nat.lt_succ_self _) (by simp) hline hword
          rw [plainBody?_of_no_word hstop hword] at hread
          cases hread
          refine ⟨plainBody?_of_no_word ((stopsPlain_onto hline).trans hstop) hother m acc,
            .inl hthere, fun hnext => .inr ⟨?_, rfl, .inr (.inr ⟨_, hword⟩)⟩⟩
          simpa [hnext] using hcolumn.symm
        · exact plainOnto_of_word hmore
            (fun acc fold there hthere hshort => ih (by omega) (by omega) hthere)
            hline hstop hword hne acc

theorem plainScalar?_onto (hz : StartsToken z) {flow broken : Bool} {indent : Nat} (h : cur.InLine)
    {text : List Char} (hread : plainScalar? flow indent cur = some (text, broken, next))
    (hends : next.rest ≠ [] ∨ flow = false ∧ 0 < indent) (hword : ¬ NoWord flow cur) :
    plainScalar? flow indent (cur.onto z) = some (text, broken, next.onto z) ∧ next.Lined ∧
      (next.column = 0 → broken = true) := by
  rw [plainScalar?] at hread ⊢
  obtain ⟨hother, hnext, hcolumn⟩ := plainBody?_onto hz flow indent
    (m := (cur.onto z).rest.length + 1) (Nat.lt_succ_self _) (by simp) h hread hends
  exact ⟨hother, hnext, fun hzero => (hcolumn hzero).resolve_right fun h => hword h.2.2⟩

/-! ## Block scalars -/

/-- An indicator is one character of the line. -/
theorem Cursor.InLine.chomp?_onto (h : cur.InLine) : chomp? (cur.onto z).rest = chomp? cur.rest ∧
    ∀ mark, chomp? cur.rest = some mark →
      (cur.onto z).advance 1 = (cur.advance 1).onto z ∧ (cur.advance 1).InLine := by
  obtain ⟨c, tail, hrest⟩ := h.exists_cons
  refine ⟨?_, fun mark hmark => ⟨onto_advance_one hrest, h.advance_one hrest ?_⟩⟩
  · simp only [rest_onto, hrest, List.cons_append]
    unfold chomp?
    split <;> simp_all
  · rintro rfl
    rw [hrest] at hmark
    cases hmark

theorem Cursor.InLine.increment_onto (h : cur.InLine) :
    increment (cur.onto z).rest = increment cur.rest ∧
      ∀ width, increment cur.rest = some width →
        (cur.onto z).advance 1 = (cur.advance 1).onto z ∧ (cur.advance 1).InLine := by
  obtain ⟨c, tail, hrest⟩ := h.exists_cons
  refine ⟨by simp only [rest_onto, hrest, List.cons_append, increment], fun width hwidth =>
    ⟨onto_advance_one hrest, h.advance_one hrest ?_⟩⟩
  rintro rfl
  rw [hrest] at hwidth
  exact absurd hwidth (by simp [increment])

/-- The indicators of a block scalar stand in its first line, in either order. -/
theorem blockHeader?_onto (h : cur.InLine) {chomp : Chomp} {extra : Nat}
    (hread : blockHeader? cur = some (chomp, extra, next)) :
    blockHeader? (cur.onto z) = some (chomp, extra, next.onto z) ∧ next.InLine := by
  rw [blockHeader?] at hread ⊢
  rw [h.chomp?_onto.1]
  split at hread
  · rename_i mark hmark
    obtain ⟨hstep, hline⟩ := (h.chomp?_onto (z := z)).2 mark hmark
    simp only [hstep, hline.increment_onto.1] at hread ⊢
    split at hread
    · cases hread
    · rename_i width hwidth
      obtain ⟨hstep', hline'⟩ := (hline.increment_onto (z := z)).2 _ ‹_›
      cases hread
      exact ⟨by rw [hstep'], hline'⟩
    · cases hread
      exact ⟨rfl, hline⟩
  · simp only [h.increment_onto.1] at hread ⊢
    split at hread
    · cases hread
    · obtain ⟨hstep, hline⟩ := (h.increment_onto (z := z)).2 _ ‹_›
      simp only [hstep, hline.chomp?_onto.1] at hread ⊢
      split at hread
      · rename_i mark hmark
        obtain ⟨hstep', hline'⟩ := (hline.chomp?_onto (z := z)).2 mark hmark
        cases hread
        exact ⟨by rw [hstep'], hline'⟩
      · cases hread
        exact ⟨rfl, hline⟩
    · cases hread
      exact ⟨rfl, h⟩

/-- Spaces are stepped over in their line. -/
theorem Cursor.InLine.advance_spaces (h : cur.InLine) {k : Nat}
    (hle : k ≤ (cur.rest.takeWhile (· == ' ')).length) :
    (cur.onto z).advance k = (cur.advance k).onto z ∧ (cur.advance k).InLine := by
  refine ⟨onto_advance (hle.trans (List.takeWhile_prefix _).length_le), h.advance fun c hc => ?_⟩
  have hpre : cur.rest.take k <+: cur.rest.takeWhile (· == ' ') :=
    List.prefix_of_prefix_length_le (List.take_prefix _ _) (List.takeWhile_prefix _)
      (by simp only [List.length_take]; omega)
  rintro rfl
  exact absurd (List.mem_takeWhile_imp (hpre.subset hc)) (by decide)

/-- No indentation is eaten at the end of the text or before a word. -/
theorem blockBreaks?_stop (hword : ∀ c ∈ cur.rest.head?, isGap c = false ∧ isBreak c = false)
    (indent n : Nat) (breaks : List Char) (widest : Nat) :
    blockBreaks? indent (n + 1) breaks widest cur = some (breaks, max widest cur.column, cur) := by
  cases hrest : cur.rest with
  | nil =>
    simp only [blockBreaks?, hrest, isAt, rest_advance, List.takeWhile_nil, List.length_nil,
      Nat.zero_min, ite_self, List.drop_nil, List.head?_nil]
    exact if_neg (by simp)
  | cons c tail =>
    obtain ⟨hgap, hbreak⟩ := hword c (by simp [hrest])
    have hblank : c ≠ ' ' ∧ c ≠ '\t' := by simpa [isGap] using hgap
    have hnone : (c :: tail).takeWhile (· == ' ') = [] :=
      List.takeWhile_cons_of_neg (by simpa using hblank.1)
    have htab : (some c == some '\t') = false := by simpa using hblank.2
    simp only [blockBreaks?, hrest, isAt, rest_advance, hnone, List.length_nil, Nat.zero_min,
      ite_self, List.drop_zero, List.head?_cons, htab, Bool.and_false, Bool.false_eq_true, if_false,
      hbreak]
    rfl

/-- Empty lines and indentation end before the first word of a line. -/
theorem blockBreaks?_onto (hz : StartsToken z) (indent : Nat) :
    ∀ {n m : Nat} {breaks more : List Char} {widest widest' : Nat} {cur next : Cursor},
      cur.rest.length < n → cur.rest.length + z.length < m → cur.Lined →
      blockBreaks? indent n breaks widest cur = some (more, widest', next) →
      blockBreaks? indent m breaks widest (cur.onto z) = some (more, widest', next.onto z) ∧
        next.Lined ∧ next.rest.length ≤ cur.rest.length := by
  intro n
  induction n with
  | zero =>
    intro m breaks more widest widest' cur next hn
    omega
  | succ n ih =>
    intro m breaks more widest widest' cur next hn hm h hread
    obtain ⟨m, rfl⟩ : ∃ k, m = k + 1 := ⟨m - 1, by omega⟩
    rcases h with hline | ⟨hrest, hcolumn⟩
    · obtain ⟨k, hk⟩ : ∃ k, k = if indent == 0 then (cur.rest.takeWhile (· == ' ')).length
        else min (cur.rest.takeWhile (· == ' ')).length (indent - cur.column) := ⟨_, rfl⟩
      obtain ⟨htake, -⟩ := hline.take_onto (z := z) (p := (· == ' ')) (by decide)
      have hspaces : ((cur.onto z).rest.takeWhile (· == ' ')).length =
          (cur.rest.takeWhile (· == ' ')).length := congrArg (fun p => p.1.length) htake
      have hle : k ≤ (cur.rest.takeWhile (· == ' ')).length := by
        rw [hk]
        split
        · exact Nat.le_refl _
        · exact Nat.min_le_left _ _
      obtain ⟨hstep, hthere⟩ := hline.advance_spaces (z := z) hle
      have hshort : (cur.advance k).rest.length ≤ cur.rest.length := by simp
      rw [blockBreaks?] at hread ⊢
      simp only [hspaces, column_onto, ← hk, hstep, isAt_onto hthere.ne_nil] at hread ⊢
      split at hread
      · cases hread
      · rename_i htab
        rw [if_neg htab]
        obtain ⟨c, tail, hrest⟩ := hthere.exists_cons
        have hrest' : ((cur.advance k).onto z).rest = c :: (tail ++ z) := by
          rw [rest_onto, hrest, List.cons_append]
        simp only [hrest, hrest'] at hread ⊢
        split at hread
        · rename_i hbreak
          have hlt := length_readBreak hrest hbreak
          rw [if_pos hbreak, hthere.readBreak_onto]
          obtain ⟨hother, hnext, hle'⟩ :=
            ih (m := m) (by omega) (by omega) (hthere.lined_readBreak hrest hbreak) hread
          exact ⟨hother, hnext, by omega⟩
        · rename_i hbreak
          cases hread
          rw [if_neg hbreak]
          exact ⟨rfl, .inl hthere, hshort⟩
    · obtain ⟨c, tail, rfl, hgap, hbreak, -, -⟩ := hz
      rw [blockBreaks?_stop (by simp [hrest])] at hread
      cases hread
      refine ⟨blockBreaks?_stop ?_ indent m breaks widest, .inr ⟨hrest, hcolumn⟩, Nat.le_refl _⟩
      rw [rest_onto, hrest]
      rintro d ⟨⟩
      exact ⟨hgap, hbreak⟩

/-- The lines of a block scalar stand right of the left margin. -/
theorem blockLines?_onto (hz : StartsToken z) (literal : Bool) {indent : Nat} (hindent : 0 < indent) :
    ∀ {n m : Nat} {acc first more acc' first' more' : List Char} {spaced : Bool}
      {cur next : Cursor},
      cur.rest.length < n → cur.rest.length + z.length < m → cur.Lined →
      blockLines? literal indent n acc first more spaced cur = some (acc', first', more', next) →
      blockLines? literal indent m acc first more spaced (cur.onto z) =
          some (acc', first', more', next.onto z) ∧ next.Lined := by
  intro n
  induction n with
  | zero =>
    intro m acc first more acc' first' more' spaced cur next hn
    omega
  | succ n ih =>
    intro m acc first more acc' first' more' spaced cur next hn hm h hread
    obtain ⟨m, rfl⟩ : ∃ k, m = k + 1 := ⟨m - 1, by omega⟩
    rw [blockLines?] at hread ⊢
    rcases h with hline | ⟨hrest, hcolumn⟩
    · obtain ⟨c, tail, hrest⟩ := hline.exists_cons
      have hrest' : (cur.onto z).rest = c :: (tail ++ z) := by simp [hrest]
      obtain ⟨htake, hthere⟩ := hline.take_onto (z := z) (p := (!isBreak ·)) (by decide)
      simp only [hrest, hrest', column_onto, List.isEmpty_cons, Bool.or_false, htake,
        hthere.readBreak_onto] at hread ⊢
      split at hread
      · rename_i hleft
        cases hread
        rw [if_pos hleft]
        exact ⟨rfl, .inl hline⟩
      · rename_i hright
        rw [if_neg hright]
        split at hread
        · cases hread
        · rename_i empty widest there hempty
          obtain ⟨d, behind, hd, hbreak⟩ := hline.exists_break
          have hlined := hthere.lined_readBreak hd hbreak
          have hlt := length_readBreak hd hbreak
          have hle : (cur.take (!isBreak ·)).2.rest.length ≤ cur.rest.length := by simp [take]
          obtain ⟨hother, hnext, hshort⟩ := blockBreaks?_onto hz indent
            (m := ((cur.take (!isBreak ·)).2.readBreak.2.onto z).rest.length + 1)
            (Nat.lt_succ_self _) (by simp) hlined hempty
          rw [hother]
          exact ih (by omega) (by omega) hnext hread
    · have hleft : (cur.column != indent) = true := by
        rw [hcolumn]
        simp
        omega
      rw [column_onto]
      rw [hleft, Bool.true_or, if_pos rfl] at hread ⊢
      cases hread
      exact ⟨rfl, .inr ⟨hrest, hcolumn⟩⟩

/-- A block scalar ends before a line at the left margin. -/
theorem blockScalar?_onto (hz : StartsToken z) {literal : Bool} {parent : Int} (h : cur.InLine)
    (hrest : cur.rest = c :: tail) (hc : c ≠ '\n') {text : List Char}
    (hread : blockScalar? literal parent cur = some (text, next)) :
    blockScalar? literal parent (cur.onto z) = some (text, next.onto z) ∧ next.Lined := by
  rw [blockScalar?] at hread ⊢
  rw [onto_advance_one hrest]
  split at hread
  · cases hread
  · rename_i chomp extra there hheader
    obtain ⟨hother, hline⟩ := blockHeader?_onto (z := z) (h.advance_one hrest hc) hheader
    simp only [hother]
    split at hread
    · cases hread
    · rename_i start hfinish
      obtain ⟨hother', hstart⟩ := hline.finishLine?_onto (z := z) hfinish
      simp only [hother']
      generalize (if extra == 0 then 0 else if parent ≥ 0 then parent.toNat + extra
        else extra) = given at hread ⊢
      dsimp only at hread ⊢
      cases hbreaks : blockBreaks? given (start.rest.length + 1) [] 0 start with
      | none => simp [hbreaks] at hread
      | some eaten =>
        obtain ⟨more, widest, first⟩ := eaten
        obtain ⟨hother'', hfirst, -⟩ := blockBreaks?_onto hz given
          (m := (start.onto z).rest.length + 1) (Nat.lt_succ_self _) (by simp) hstart hbreaks
        have hindent :
            0 < if given != 0 then given else max (max widest (parent + 1).toNat) 1 := by
          split
          · exact Nat.pos_of_ne_zero (by simpa using ‹(given != 0) = true›)
          · exact Nat.lt_of_lt_of_le Nat.one_pos (Nat.le_max_right _ _)
        simp only [hbreaks] at hread
        simp only [hother'']
        generalize (if given != 0 then given else max (max widest (parent + 1).toNat) 1) = indent
          at hread hindent ⊢
        cases hlines : blockLines? literal indent (first.rest.length + 1) [] [] more false first with
        | none => simp [hlines] at hread
        | some lines =>
          obtain ⟨body, last, trailing, behind⟩ := lines
          obtain ⟨hothers, hbehind⟩ := blockLines?_onto hz literal hindent
            (m := (first.onto z).rest.length + 1) (Nat.lt_succ_self _) (by simp) hfirst hlines
          simp only [hlines] at hread
          simp only [hothers]
          cases hread
          exact ⟨rfl, hbehind⟩

end CompilerRemarks.Yaml
