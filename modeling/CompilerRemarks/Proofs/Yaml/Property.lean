/-
  CompilerRemarks.Proofs.Yaml.Property

  Anchors, tags and directives are read from one line, so what is read is the
  same whatever lines follow.
-/
import CompilerRemarks.Proofs.Yaml.Line

namespace CompilerRemarks.Yaml

open Cursor

variable {z : List Char} {cur next : Cursor}

/-- A character of a name, taken behind the mark at the cursor. -/
theorem anchorName?_onto (h : cur.InLine) {c : Char} {tail : List Char}
    (hrest : cur.rest = c :: tail) (hc : c ≠ '\n') {name : List Char}
    (hread : anchorName? cur = some (name, next)) :
    anchorName? (cur.onto z) = some (name, next.onto z) ∧ next.InLine ∧
      cur.column < next.column := by
  obtain ⟨htake, hline⟩ :=
    (h.advance_one hrest hc).take_onto (z := z) (p := isNameChar) (by decide)
  have hends : endsAnchor ((cur.advance 1).take isNameChar).2.rest =
      endsAnchor (((cur.advance 1).take isNameChar).2.rest ++ z) := by
    obtain ⟨d, rest, hd⟩ := hline.exists_cons
    rw [hd]
    rfl
  simp only [anchorName?, onto_advance_one hrest, htake, rest_onto, ← hends] at hread ⊢
  split at hread
  · cases hread
  · rename_i hname
    cases hread
    refine ⟨by rw [if_neg hname], hline, ?_⟩
    show cur.column < cur.column + 1 + _
    omega

/-- A hexadecimal number has no line feed in it. -/
theorem digitsFrom?_eq_none_of_mem {radix : Nat} {s : List Char} (h : '\n' ∈ s) (acc : Nat) :
    Text.digitsFrom? radix acc s = none := by
  induction s generalizing acc with
  | nil => cases h
  | cons c s ih =>
    rcases List.mem_cons.mp h with rfl | h
    · rfl
    · rw [Text.digitsFrom?]
      split
      · rw [ih h, ite_self]
      · rfl

theorem notMem_of_digits? {radix n : Nat} {s : List Char} (h : Text.digits? radix s = some n) :
    '\n' ∉ s := by
  intro hmem
  rw [Text.digits?, digitsFrom?_eq_none_of_mem hmem, ite_self] at h
  cases h

theorem escapedByte?_append {s rest : List Char} {n : Nat}
    (h : escapedByte? s = some (n, rest)) : ∃ a b, s = '%' :: a :: b :: rest ∧
      '\n' ∉ ['%', a, b] ∧ escapedByte? (s ++ z) = some (n, rest ++ z) := by
  unfold escapedByte? at h
  split at h
  · rename_i a b tail
    rw [Option.map_eq_some_iff] at h
    obtain ⟨m, hm, heq⟩ := h
    cases heq
    have hfeed := notMem_of_digits? hm
    refine ⟨a, b, rfl, by simpa using hfeed, ?_⟩
    simp [escapedByte?, hm]
  · cases h

theorem escapedTail?_append {n : Nat} : ∀ {s rest : List Char} {bytes : List UInt8},
    escapedTail? n s = some (bytes, rest) → ∃ taken, s = taken ++ rest ∧ '\n' ∉ taken ∧
      taken.length = 3 * bytes.length ∧ escapedTail? n (s ++ z) = some (bytes, rest ++ z) := by
  induction n with
  | zero =>
    intro s rest bytes h
    cases h
    exact ⟨[], rfl, List.not_mem_nil, rfl, rfl⟩
  | succ n ih =>
    intro s rest bytes h
    rw [escapedTail?] at h
    split at h
    · cases h
    · rename_i b behind hbyte
      obtain ⟨x, y, rfl, hfeed, hmore⟩ := escapedByte?_append (z := z) hbyte
      split at h
      · rename_i hrange
        rw [Option.map_eq_some_iff] at h
        obtain ⟨⟨later, end'⟩, htail, heq⟩ := h
        cases heq
        obtain ⟨taken, rfl, hnone, hlength, hrest⟩ := ih htail
        refine ⟨'%' :: x :: y :: taken, rfl, ?_, ?_, ?_⟩
        · simpa [hnone] using hfeed
        · simp [hlength]
          omega
        · simp only [escapedTail?, hmore, if_pos hrange, hrest, Option.map_some]
      · cases h

theorem escapedChar?_append {s rest : List Char} {bytes : List UInt8}
    (h : escapedChar? s = some (bytes, rest)) : ∃ taken, s = taken ++ rest ∧ '\n' ∉ taken ∧
      taken.length = 3 * bytes.length ∧ bytes ≠ [] ∧
      escapedChar? (s ++ z) = some (bytes, rest ++ z) := by
  rw [escapedChar?] at h
  split at h
  · cases h
  · rename_i b behind hbyte
    obtain ⟨x, y, rfl, hfeed, hmore⟩ := escapedByte?_append (z := z) hbyte
    split at h
    · cases h
    · rename_i width hwidth
      rw [Option.map_eq_some_iff] at h
      obtain ⟨⟨later, end'⟩, htail, heq⟩ := h
      cases heq
      obtain ⟨taken, rfl, hnone, hlength, hrest⟩ := escapedTail?_append (z := z) htail
      refine ⟨'%' :: x :: y :: taken, rfl, ?_, ?_, List.cons_ne_nil _ _, ?_⟩
      · simpa [hnone] using hfeed
      · simp [hlength]
        omega
      · simp only [escapedChar?, hmore, hwidth, hrest, Option.map_some]

section UriStep

variable {bracketed : Bool} {n m : Nat} {c : Char} {tail : List Char}

theorem uriBytes?_escaped (hrest : cur.rest = '%' :: tail) {bytes : List UInt8}
    {behind : List Char} (hescaped : escapedChar? ('%' :: tail) = some (bytes, behind)) (n : Nat) :
    uriBytes? bracketed (n + 1) cur =
      (uriBytes? bracketed n (cur.advance (3 * bytes.length))).map fun (more, cur) =>
        (bytes ++ more, cur) := by
  simp only [uriBytes?, hrest, hescaped, beq_self_eq_true, if_true]

theorem uriBytes?_char (hrest : cur.rest = c :: tail) (hc : c ≠ '%')
    (huri : isUriChar bracketed c = true) (n : Nat) :
    uriBytes? bracketed (n + 1) cur =
      (uriBytes? bracketed n (cur.advance 1)).map fun (more, cur) =>
        (Text.Utf8.encodeChar c ++ more, cur) := by
  simp only [uriBytes?, hrest, beq_iff_eq, if_neg hc, huri, if_true]

theorem uriBytes?_stop (hrest : cur.rest = c :: tail) (hc : c ≠ '%')
    (huri : isUriChar bracketed c = false) (n : Nat) :
    uriBytes? bracketed (n + 1) cur = some ([], cur) := by
  simp only [uriBytes?, hrest, beq_iff_eq, if_neg hc, huri, Bool.false_eq_true, if_false]

/-- What is read of a tag with fuel `n`, is read with fuel `m` as well if the text goes
    on with `z`. -/
def UriOnto (z : List Char) (bracketed : Bool) (n m : Nat) (cur : Cursor) : Prop :=
  ∀ ⦃bytes : List UInt8⦄ ⦃next : Cursor⦄, uriBytes? bracketed n cur = some (bytes, next) →
    uriBytes? bracketed m (cur.onto z) = some (bytes, next.onto z) ∧ next.InLine ∧
      cur.column ≤ next.column

/-- The reader goes on behind the first characters of the line. -/
theorem UriOnto.behind {k : Nat} {bytes : List UInt8} (h : UriOnto z bracketed n m (cur.advance k))
    (hle : k ≤ cur.rest.length)
    (hstep : uriBytes? bracketed (n + 1) cur =
      (uriBytes? bracketed n (cur.advance k)).map fun (more, cur) => (bytes ++ more, cur))
    (hstep' : uriBytes? bracketed (m + 1) (cur.onto z) =
      (uriBytes? bracketed m ((cur.onto z).advance k)).map fun (more, cur) =>
        (bytes ++ more, cur)) :
    UriOnto z bracketed (n + 1) (m + 1) cur := by
  intro read next hread
  rw [hstep, Option.map_eq_some_iff] at hread
  obtain ⟨⟨later, there⟩, hlater, heq⟩ := hread
  cases heq
  obtain ⟨hother, hline, hcolumn⟩ := h hlater
  rw [column_advance] at hcolumn
  refine ⟨?_, hline, by omega⟩
  rw [hstep', onto_advance hle, hother, Option.map_some]

end UriStep

/-- The characters of a tag are read from one line. -/
theorem uriBytes?_onto (bracketed : Bool) :
    ∀ {n m : Nat} {cur : Cursor}, cur.rest.length < n → cur.rest.length + z.length < m →
      cur.InLine → UriOnto z bracketed n m cur := by
  intro n
  induction n with
  | zero =>
    intro m cur hn
    omega
  | succ n ih =>
    intro m cur hn hm h
    obtain ⟨m, rfl⟩ : ∃ k, m = k + 1 := ⟨m - 1, by omega⟩
    obtain ⟨c, tail, hrest⟩ := h.exists_cons
    have hmore : (cur.onto z).rest = c :: (tail ++ z) := by simp [hrest]
    have hgo : ∀ {k : Nat}, 0 < k → k ≤ cur.rest.length → (∀ d ∈ cur.rest.take k, d ≠ '\n') →
        UriOnto z bracketed n m (cur.advance k) := by
      intro k hpos hle hfeed
      refine ih ?_ ?_ (h.advance hfeed)
      · rw [rest_advance, List.length_drop]
        omega
      · rw [rest_advance, List.length_drop]
        omega
    by_cases hpercent : c = '%'
    · subst hpercent
      cases hescaped : escapedChar? ('%' :: tail) with
      | none =>
        intro bytes next hread
        simp [uriBytes?, hrest, hescaped] at hread
      | some read =>
        obtain ⟨escaped, behind⟩ := read
        obtain ⟨taken, htaken, hfeed, hlength, hne, hescaped'⟩ :=
          escapedChar?_append (z := z) hescaped
        have hpos := List.length_pos_iff.mpr hne
        have hle : 3 * escaped.length ≤ cur.rest.length := by
          rw [hrest, htaken, List.length_append]
          omega
        have htake : cur.rest.take (3 * escaped.length) = taken := by
          rw [hrest, htaken, ← hlength, List.take_left' rfl]
        refine (hgo (by omega) hle ?_).behind hle (uriBytes?_escaped hrest hescaped n)
          (uriBytes?_escaped hmore hescaped' m)
        rw [htake]
        rintro d hd rfl
        exact hfeed hd
    · cases huri : isUriChar bracketed c with
      | true =>
        have hfeed : c ≠ '\n' := by
          rintro rfl
          exact absurd huri (by cases bracketed <;> decide)
        have hle : 1 ≤ cur.rest.length := by simp [hrest]
        exact (hgo Nat.one_pos hle (by simp [hrest, hfeed])).behind hle
          (uriBytes?_char hrest hpercent huri n) (uriBytes?_char hmore hpercent huri m)
      | false =>
        intro bytes next hread
        rw [uriBytes?_stop hrest hpercent huri] at hread
        cases hread
        exact ⟨uriBytes?_stop hmore hpercent huri m, h, Nat.le_refl _⟩

theorem uri?_onto {bracketed before : Bool} (h : cur.InLine) {bytes : List UInt8}
    (hread : uri? bracketed before cur = some (bytes, next)) :
    uri? bracketed before (cur.onto z) = some (bytes, next.onto z) ∧ next.InLine ∧
      cur.column ≤ next.column := by
  rw [uri?] at hread ⊢
  split at hread
  · rename_i there hbytes
    obtain ⟨hother, hline, hcolumn⟩ :=
      uriBytes?_onto (z := z) (m := (cur.onto z).rest.length + 1) bracketed (Nat.lt_succ_self _)
        (by simp) h hbytes
    rw [hother]
    split at hread
    · rename_i hbefore
      cases hread
      exact ⟨if_pos hbefore, hline, hcolumn⟩
    · cases hread
  · rename_i read there hne hbytes
    obtain ⟨hother, hline, hcolumn⟩ :=
      uriBytes?_onto (z := z) (m := (cur.onto z).rest.length + 1) bracketed (Nat.lt_succ_self _)
        (by simp) h hbytes
    rw [hother]
    cases hread
    cases read with
    | nil => exact (hne rfl).elim
    | cons b read => exact ⟨rfl, hline, hcolumn⟩
  · cases hread

theorem handle_onto (h : cur.InLine) {c : Char} {tail : List Char} (hrest : cur.rest = c :: tail)
    (hc : c ≠ '\n') :
    handle (cur.onto z) = ((handle cur).1, (handle cur).2.onto z) ∧ (handle cur).2.InLine ∧
      cur.column < (handle cur).2.column := by
  obtain ⟨htake, hline⟩ :=
    (h.advance_one hrest hc).take_onto (z := z) (p := isNameChar) (by decide)
  have hcolumn : cur.column < ((cur.advance 1).take isNameChar).2.column := by
    show cur.column < cur.column + 1 + _
    omega
  simp only [handle, onto_advance_one hrest, htake, isAt_onto hline.ne_nil]
  split
  · rename_i hmark
    obtain ⟨hstep, hnext⟩ := hline.advance_of_isAt (z := z) hmark (by decide)
    refine ⟨?_, hnext, Nat.lt_succ_of_lt hcolumn⟩
    rw [hstep]
  · exact ⟨rfl, hline, hcolumn⟩

/-- A tag that is not in angle brackets is a handle with a suffix, or a suffix alone. -/
theorem tagParts?_of_handle {c d : Char} {rest : List Char} (hrest : cur.rest = c :: d :: rest)
    (hbracket : d ≠ '<') : tagParts? cur =
      if (handle cur).1.length > 1 && (handle cur).1.getLast? == some '!' then
        (uri? false false (handle cur).2).map fun (suffix, there) =>
          (((handle cur).1, suffix), there)
      else (uri? false true (handle cur).2).map fun (later, there) =>
        let suffix := Text.Utf8.encode ((handle cur).1.drop 1) ++ later
        if suffix.isEmpty then (([], [0x21]), there) else ((['!'], suffix), there) := by
  unfold tagParts?
  simp [hrest, hbracket]

theorem tagParts?_onto (h : cur.InLine) {c : Char} {tail : List Char} (hrest : cur.rest = c :: tail)
    (hc : c ≠ '\n') {parts : List Char × List UInt8} (hread : tagParts? cur = some (parts, next)) :
    tagParts? (cur.onto z) = some (parts, next.onto z) ∧ next.InLine ∧
      cur.column < next.column := by
  obtain ⟨init, hinit⟩ := h.tail_ne_nil hrest hc
  obtain ⟨d, rest, htail⟩ : ∃ d rest, tail = d :: rest := by
    cases tail with
    | nil => simp at hinit
    | cons d rest => exact ⟨d, rest, rfl⟩
  have hmore : (cur.onto z).rest = c :: d :: (rest ++ z) := by simp [hrest, htail]
  rw [htail] at hrest
  by_cases hbracket : d = '<'
  · subst hbracket
    have htwo : (cur.advance 2).InLine := h.advance (by simp [hrest, hc])
    simp only [tagParts?, hrest, hmore] at hread ⊢
    split at hread
    · cases hread
    · rename_i suffix there huri
      obtain ⟨hother, hline, hcolumn⟩ := uri?_onto (z := z) htwo huri
      split at hread
      · rename_i hclose
        cases hread
        obtain ⟨hstep, hnext⟩ := hline.advance_of_isAt (z := z) hclose (by decide)
        rw [column_advance] at hcolumn
        rw [onto_advance (by simp [hrest]), hother]
        simp only [isAt_onto hline.ne_nil, if_pos hclose, hstep]
        exact ⟨trivial, hnext, by simp only [column_advance]; omega⟩
      · cases hread
  · obtain ⟨hhandle, hline, hcolumn⟩ := handle_onto (z := z) h hrest hc
    rw [tagParts?_of_handle hrest hbracket] at hread
    rw [tagParts?_of_handle hmore hbracket, hhandle]
    split at hread
    · rename_i hnamed
      rw [if_pos hnamed]
      rw [Option.map_eq_some_iff] at hread
      obtain ⟨⟨suffix, there⟩, huri, heq⟩ := hread
      cases heq
      obtain ⟨hother, hinside, hlater⟩ := uri?_onto (z := z) hline huri
      rw [hother]
      exact ⟨rfl, hinside, Nat.lt_of_lt_of_le hcolumn hlater⟩
    · rename_i hnamed
      rw [if_neg hnamed]
      rw [Option.map_eq_some_iff] at hread
      obtain ⟨⟨later, there⟩, huri, heq⟩ := hread
      obtain ⟨hother, hinside, hlater⟩ := uri?_onto (z := z) hline huri
      rw [hother, Option.map_some]
      dsimp only at heq ⊢
      split at heq
      · rename_i hempty
        cases heq
        exact ⟨by rw [if_pos hempty], hinside, Nat.lt_of_lt_of_le hcolumn hlater⟩
      · rename_i hempty
        cases heq
        exact ⟨by rw [if_neg hempty], hinside, Nat.lt_of_lt_of_le hcolumn hlater⟩

theorem tagToken?_onto {flow : Bool} (h : cur.InLine) {c : Char} {tail : List Char}
    (hrest : cur.rest = c :: tail) (hc : c ≠ '\n') {t : Token}
    (hread : tagToken? flow cur = some (t, next)) :
    tagToken? flow (cur.onto z) = some (t, next.onto z) ∧ next.InLine ∧
      cur.column < next.column := by
  rw [tagToken?] at hread ⊢
  split at hread
  · cases hread
  · rename_i name suffix there hparts
    obtain ⟨hother, hline, hcolumn⟩ := tagParts?_onto (z := z) h hrest hc hparts
    rw [hother]
    simp only [rest_onto, hline.atGap_onto, isAt_onto hline.ne_nil]
    split at hread
    · rename_i hends
      cases hread
      exact ⟨if_pos hends, hline, hcolumn⟩
    · cases hread

theorem versionNumber?_onto (h : cur.InLine) {n : Nat}
    (hread : versionNumber? cur = some (n, next)) :
    versionNumber? (cur.onto z) = some (n, next.onto z) ∧ next.InLine := by
  obtain ⟨htake, hline⟩ :=
    h.take_onto (z := z) (p := fun c => decide ('0' ≤ c) && decide (c ≤ '9')) (by decide)
  rw [versionNumber?] at hread ⊢
  rw [htake]
  dsimp only at hread ⊢
  split at hread
  · cases hread
  · rename_i hshort
    rw [Option.map_eq_some_iff] at hread
    obtain ⟨m, hm, heq⟩ := hread
    cases heq
    rw [if_neg hshort, hm]
    exact ⟨rfl, hline⟩

theorem version?_onto (h : cur.InLine) {t : Token} (hread : version? cur = some (t, next)) :
    version? (cur.onto z) = some (t, next.onto z) ∧ next.InLine := by
  obtain ⟨hskip, hgap⟩ := h.skipWhile_onto (z := z) (p := isGap) (by decide)
  rw [version?] at hread ⊢
  rw [hskip]
  split at hread
  · cases hread
  · rename_i major there hmajor
    obtain ⟨hother, hline⟩ := versionNumber?_onto (z := z) hgap hmajor
    rw [hother]
    dsimp only at hread ⊢
    rw [isAt_onto hline.ne_nil]
    split at hread
    · rename_i hpoint
      obtain ⟨hstep, hafter⟩ := hline.advance_of_isAt (z := z) hpoint (by decide)
      rw [Option.map_eq_some_iff] at hread
      obtain ⟨⟨minor, there'⟩, hminor, heq⟩ := hread
      cases heq
      obtain ⟨hother', hline'⟩ := versionNumber?_onto (z := z) hafter hminor
      rw [if_pos hpoint, hstep, hother']
      exact ⟨rfl, hline'⟩
    · cases hread

theorem tagShorthand?_onto (h : cur.InLine) {t : Token}
    (hread : tagShorthand? cur = some (t, next)) :
    tagShorthand? (cur.onto z) = some (t, next.onto z) ∧ next.InLine := by
  obtain ⟨hskip, hgap⟩ := h.skipWhile_onto (z := z) (p := isGap) (by decide)
  simp only [tagShorthand?, hskip, isAt_onto hgap.ne_nil] at hread ⊢
  split at hread
  · cases hread
  · rename_i hmark
    obtain ⟨d, rest, hd⟩ := hgap.exists_cons
    have hfeed : d ≠ '\n' := by
      rintro rfl
      rw [isAt, hd] at hmark
      exact hmark rfl
    obtain ⟨hhandle, hline, -⟩ := handle_onto (z := z) hgap hd hfeed
    rw [if_neg hmark]
    rw [hhandle]
    split at hread
    · cases hread
    · rename_i hnamed
      rw [if_neg hnamed]
      obtain ⟨e, behind, he⟩ := hline.exists_cons
      have hmore : ((handle (cur.skipWhile isGap)).2.onto z).rest = e :: (behind ++ z) := by
        simp [he]
      simp only [he, hmore] at hread ⊢
      split at hread
      · rename_i hblank
        rw [if_pos hblank]
        obtain ⟨hskip', hgap'⟩ := hline.skipWhile_onto (z := z) (p := isGap) (by decide)
        rw [hskip']
        split at hread
        · cases hread
        · rename_i uri there huri
          obtain ⟨hother, hend, -⟩ := uri?_onto (z := z) hgap' huri
          rw [hother]
          simp only [rest_onto, hend.atGap_onto]
          split at hread
          · rename_i hends
            cases hread
            exact ⟨if_pos hends, hend⟩
          · cases hread
      · cases hread

/-- A directive takes up its line. -/
theorem directive?_onto (h : cur.InLine) {c : Char} {tail : List Char} (hrest : cur.rest = c :: tail)
    (hc : c ≠ '\n') {t : Token} (hread : directive? cur = some (t, next)) :
    directive? (cur.onto z) = some (t, next.onto z) ∧ next.Lined := by
  obtain ⟨htake, hname⟩ :=
    (h.advance_one hrest hc).take_onto (z := z) (p := isNameChar) (by decide)
  simp only [directive?, onto_advance_one hrest, htake, rest_onto, hname.atGap_onto] at hread ⊢
  split at hread
  · cases hread
  · rename_i hends
    rw [if_neg hends]
    split at hread
    · cases hread
    · rename_i token there hvalue
      -- the two directives differ in how their values are read
      have hother : (if ((cur.advance 1).take isNameChar).1 == "YAML".toList then
            version? (((cur.advance 1).take isNameChar).2.onto z)
          else if ((cur.advance 1).take isNameChar).1 == "TAG".toList then
            tagShorthand? (((cur.advance 1).take isNameChar).2.onto z)
          else none) = some (token, there.onto z) ∧ there.InLine := by
        split at hvalue
        · rename_i hyaml
          rw [if_pos hyaml]
          exact version?_onto hname hvalue
        · rename_i hyaml
          rw [if_neg hyaml]
          split at hvalue
          · rename_i htag
            rw [if_pos htag]
            exact tagShorthand?_onto hname hvalue
          · cases hvalue
      rw [Option.map_eq_some_iff] at hread
      obtain ⟨behind, hfinish, heq⟩ := hread
      cases heq
      obtain ⟨hfinish', hlined⟩ := hother.2.finishLine?_onto (z := z) hfinish
      simp only [hother.1, hfinish', Option.map_some]
      exact ⟨trivial, hlined⟩

end CompilerRemarks.Yaml
