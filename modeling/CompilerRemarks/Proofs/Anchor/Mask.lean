/-
  CompilerRemarks.Proofs.Anchor.Mask

  Blanking comments and literals leaves the layout of a source as it is
  (`maskText_keeps_layout`): each character keeps its bytes or becomes as
  many blanks, and line feeds keep their places. Blanking twice is blanking
  once (`ofSource_maskText`).

  What masking does with the first byte is said once (`maskFrom_cons_cases`):
  it keeps it, blanks it, or blanks it together with the next one. For a
  text this becomes a statement about whole characters (`Blanks`), because no
  byte of a longer character changes the region (`maskFrom_append_plain`).
-/
import CompilerRemarks.Anchor.Scan
import CompilerRemarks.Proofs.Text.Offset

namespace CompilerRemarks.Anchor

open Text.Utf8 (encode encodeChar size decode?)

/-! ## Regions and bytes -/

/-- Only quotes open literals. -/
def Region.IsQuoted : Region → Prop
  | .literal q => isQuote q = true
  | _ => True

theorem Region.isQuoted_code : Region.IsQuoted .code := trivial

/-- Whether a byte may change the region. -/
def isMark (b : UInt8) : Bool :=
  b == 0x2F || b == 0x2A || b == 0x5C || b == 0x0A || isQuote b

theorem isMark_of_le {b : UInt8} (h : 0x80 ≤ b.toNat) : isMark b = false := by
  have hne : ∀ x : UInt8, x.toNat < 0x80 → b ≠ x := by
    rintro x hx rfl
    omega
  simp [isMark, isQuote, hne]

theorem ne_of_isMark_eq_false {b : UInt8} (h : isMark b = false) :
    b ≠ 0x2F ∧ b ≠ 0x2A ∧ b ≠ 0x5C ∧ b ≠ 0x0A ∧ isQuote b = false := by
  simpa [isMark, and_assoc] using h

theorem ne_of_isQuote {q : UInt8} (h : isQuote q = true) :
    q ≠ 0x2F ∧ q ≠ 0x2A ∧ q ≠ 0x5C ∧ q ≠ 0x0A ∧ q ≠ 0x20 := by
  rcases (by simpa [isQuote] using h : q = 0x22 ∨ q = 0x27) with rfl | rfl <;> decide

/-! ## One step -/

section Step

variable {region : Region} {b : UInt8}

/-- A byte that is no mark leaves the region as it is; it is kept in code and
    blanked elsewhere. -/
theorem maskFrom_cons_plain (hregion : region.IsQuoted) (hb : isMark b = false)
    (rest : List UInt8) :
    maskFrom region (b :: rest) =
      (if region = .code then b else 0x20) :: maskFrom region rest := by
  obtain ⟨hslash, hstar, hback, hfeed, hquote⟩ := ne_of_isMark_eq_false hb
  cases region with
  | code => cases rest <;> simp [maskFrom, hslash, hquote]
  | lineComment => simp [maskFrom, hfeed]
  | blockComment => cases rest <;> simp [maskFrom, hstar, hfeed]
  | literal q =>
    have hne : b ≠ q := by
      rintro rfl
      exact absurd hregion (by simp [Region.IsQuoted, hquote])
    cases rest <;> simp [maskFrom, hback, hfeed, hne]

theorem maskFrom_cons_blank (hregion : region.IsQuoted) (rest : List UInt8) :
    maskFrom region (0x20 :: rest) = 0x20 :: maskFrom region rest := by
  have h := maskFrom_cons_plain hregion (b := 0x20) (by decide) rest
  rwa [ite_self] at h

/-- A run of bytes that are no marks is kept in code and blanked elsewhere. -/
theorem maskFrom_append_plain (hregion : region.IsQuoted) {run : List UInt8}
    (hrun : ∀ b ∈ run, isMark b = false) (rest : List UInt8) :
    maskFrom region (run ++ rest) =
      (if region = .code then run else List.replicate run.length 0x20) ++
        maskFrom region rest := by
  induction run with
  | nil => simp
  | cons b run ih =>
    have hb := hrun b List.mem_cons_self
    have hmore := ih fun x hx => hrun x (List.mem_cons_of_mem b hx)
    rw [List.cons_append, maskFrom_cons_plain hregion hb, hmore]
    split <;> simp [List.replicate_succ]

/-- What masking makes of the first byte: it is kept, or blanked, or blanked
    together with the next one. The next one is an ASCII byte unless it stands
    in a literal, which then goes on. -/
theorem maskFrom_cons_cases (hregion : region.IsQuoted) (b : UInt8) (rest : List UInt8) :
    ∃ next : Region, next.IsQuoted ∧
      (maskFrom region (b :: rest) = b :: maskFrom next rest ∨
        b ≠ 0x0A ∧ maskFrom region (b :: rest) = 0x20 :: maskFrom next rest ∨
        b ≠ 0x0A ∧ ∃ d more, rest = d :: more ∧ d ≠ 0x0A ∧ (d.toNat < 0x80 ∨ next ≠ .code) ∧
          maskFrom region (b :: rest) = 0x20 :: 0x20 :: maskFrom next more) := by
  cases region with
  | code =>
    cases rest with
    | nil => exact ⟨.code, trivial, .inl (by simp [maskFrom])⟩
    | cons d more =>
      by_cases hline : b = 0x2F ∧ d = 0x2F
      · obtain ⟨rfl, rfl⟩ := hline
        exact ⟨.lineComment, trivial, .inr (.inr ⟨by decide, 0x2F, more, rfl, by decide,
          .inl (by decide), by simp [maskFrom]⟩)⟩
      · by_cases hblock : b = 0x2F ∧ d = 0x2A
        · obtain ⟨rfl, rfl⟩ := hblock
          exact ⟨.blockComment, trivial, .inr (.inr ⟨by decide, 0x2A, more, rfl, by decide,
            .inl (by decide), by simp [maskFrom]⟩)⟩
        · refine ⟨if isQuote b then .literal b else .code, ?_, .inl ?_⟩
          · split
            · assumption
            · trivial
          · simp [maskFrom, hline, hblock]
  | lineComment =>
    by_cases hfeed : b = 0x0A
    · exact ⟨.code, trivial, .inl (by simp [maskFrom, hfeed])⟩
    · exact ⟨.lineComment, trivial, .inr (.inl ⟨hfeed, by simp [maskFrom, hfeed]⟩)⟩
  | blockComment =>
    -- whether the comment goes on after this byte
    have hstay : (∀ d more, rest = d :: more → ¬ (b = 0x2A ∧ d = 0x2F)) →
        maskFrom .blockComment (b :: rest) =
          (if b = 0x0A then 0x0A else 0x20) :: maskFrom .blockComment rest := by
      intro hopen
      cases rest with
      | nil => simp [maskFrom]
      | cons d more => simp [maskFrom, hopen d more rfl]
    by_cases hclose : ∃ more, b = 0x2A ∧ rest = 0x2F :: more
    · obtain ⟨more, rfl, rfl⟩ := hclose
      exact ⟨.code, trivial, .inr (.inr ⟨by decide, 0x2F, more, rfl, by decide,
        .inl (by decide), by simp [maskFrom]⟩)⟩
    · have heq := hstay fun d more hrest hmarks =>
        hclose ⟨more, hmarks.1, by rw [hrest, hmarks.2]⟩
      refine ⟨.blockComment, trivial, ?_⟩
      by_cases hfeed : b = 0x0A
      · exact .inl (by rw [heq, if_pos hfeed, hfeed])
      · exact .inr (.inl ⟨hfeed, by rw [heq, if_neg hfeed]⟩)
  | literal q =>
    -- a backslash takes the next byte with it, unless that ends the line
    by_cases hescape : ∃ d more, b = 0x5C ∧ rest = d :: more ∧ d ≠ 0x0A
    · obtain ⟨d, more, rfl, rfl, hd⟩ := hescape
      exact ⟨.literal q, hregion, .inr (.inr ⟨by decide, d, more, rfl, hd, .inr (by simp),
        by simp [maskFrom, hd]⟩)⟩
    · have heq : maskFrom (.literal q) (b :: rest) =
          if b = q ∨ b = 0x0A then b :: maskFrom .code rest
          else 0x20 :: maskFrom (.literal q) rest := by
        cases rest with
        | nil => by_cases h : b = q ∨ b = 0x0A <;> simp [maskFrom, h]
        | cons d more =>
          have hno : ¬ (b = 0x5C ∧ d ≠ 0x0A) := fun h => hescape ⟨d, more, h.1, rfl, h.2⟩
          simp only [maskFrom, Bool.and_eq_true, beq_iff_eq, bne_iff_ne, Bool.or_eq_true]
          rw [if_neg hno]
      by_cases hend : b = q ∨ b = 0x0A
      · exact ⟨.code, trivial, .inl (by rw [heq, if_pos hend])⟩
      · refine ⟨.literal q, hregion, .inr (.inl ⟨fun h => hend (.inr h), ?_⟩)⟩
        rw [heq, if_neg hend]

end Step

/-! ## Whole characters -/

/-- The bytes of a text in which each character is kept, or blanked over all
    its bytes; line feeds are kept. -/
inductive Blanks : List Char → List UInt8 → Prop where
  | nil : Blanks [] []
  | keep (c : Char) {s : List Char} {out : List UInt8} :
      Blanks s out → Blanks (c :: s) (encodeChar c ++ out)
  | blank {c : Char} {s : List Char} {out : List UInt8} : c ≠ '\n' → Blanks s out →
      Blanks (c :: s) (List.replicate (encodeChar c).length 0x20 ++ out)

theorem encodeChar_feed : encodeChar '\n' = [0x0A] := rfl

theorem ne_feed_of_encodeChar {c : Char} {b : UInt8} {tail : List UInt8}
    (hc : encodeChar c = b :: tail) (hb : b ≠ 0x0A) : c ≠ '\n' := by
  rintro rfl
  rw [encodeChar_feed] at hc
  exact hb (List.cons.inj hc).1.symm

/-- The bytes of a character after its first one are no marks. -/
theorem isMark_of_mem_tail {c : Char} {b : UInt8} {tail : List UInt8}
    (hc : encodeChar c = b :: tail) : ∀ x ∈ tail, isMark x = false := by
  intro x hx
  rcases Text.Utf8.encodeChar_cases c with ⟨a, -, ha, -⟩ | hlong
  · rw [ha] at hc
    obtain ⟨-, rfl⟩ := List.cons.inj hc
    exact absurd hx List.not_mem_nil
  · exact isMark_of_le (hlong x (by rw [hc]; exact List.mem_cons_of_mem b hx))

/-- Where the first byte of a character is blanked, so are the others. -/
theorem maskFrom_tail_append {next : Region} (hnext : next.IsQuoted) {c : Char} {b : UInt8}
    {tail : List UInt8} (hc : encodeChar c = b :: tail) (h : b.toNat < 0x80 ∨ next ≠ .code)
    (rest : List UInt8) :
    maskFrom next (tail ++ rest) = List.replicate tail.length 0x20 ++ maskFrom next rest := by
  rcases h with hascii | hcode
  · rcases Text.Utf8.encodeChar_cases c with ⟨a, -, ha, -⟩ | hlong
    · rw [ha] at hc
      obtain ⟨-, rfl⟩ := List.cons.inj hc
      rfl
    · have := hlong b (by rw [hc]; exact List.mem_cons_self)
      omega
  · rw [maskFrom_append_plain hnext (isMark_of_mem_tail hc), if_neg hcode]

/-- Masking a text keeps or blanks each of its characters. -/
theorem blanks_maskFrom {region : Region} (hregion : region.IsQuoted) (s : List Char) :
    Blanks s (maskFrom region (encode s)) := by
  -- on the number of characters: a pair of marks takes two of them
  induction hlen : s.length using Nat.strongRecOn generalizing region s with
  | ind n ih =>
    cases s with
    | nil => cases region <;> exact .nil
    | cons c s =>
      have hs : s.length < n := by simp [← hlen]
      rw [Text.Utf8.encode_cons]
      rcases Text.Utf8.encodeChar_cases c with ⟨b, -, hc, -⟩ | hlong
      · obtain ⟨next, hnext, hkept | ⟨hb, hblank⟩ | ⟨hb, d, more, hrest, hd, hgoes, hpair⟩⟩ :=
          maskFrom_cons_cases hregion b (encode s)
        · have hkeep := Blanks.keep c (ih _ hs hnext s rfl)
          rw [hc] at hkeep ⊢
          rwa [List.singleton_append, hkept]
        · have hblanks := Blanks.blank (ne_feed_of_encodeChar hc hb) (ih _ hs hnext s rfl)
          rw [hc] at hblanks ⊢
          rwa [List.singleton_append, hblank]
        · -- the second byte is the first one of the next character
          cases s with
          | nil => exact absurd hrest (by simp [Text.Utf8.encode_nil])
          | cons e t =>
            have ht : t.length < n := by
              simp only [← hlen, List.length_cons]
              omega
            obtain ⟨lead, tail, he⟩ := List.exists_cons_of_ne_nil (Text.Utf8.encodeChar_ne_nil e)
            rw [Text.Utf8.encode_cons, he, List.cons_append] at hrest
            obtain ⟨rfl, rfl⟩ := List.cons.inj hrest
            have hblanks := Blanks.blank (ne_feed_of_encodeChar hc hb)
              (Blanks.blank (ne_feed_of_encodeChar he hd) (ih _ ht hnext t rfl))
            rw [hc, he] at hblanks
            rw [hc, List.singleton_append, hpair, maskFrom_tail_append hnext he hgoes]
            exact hblanks
      · -- there is no mark in a longer character
        rw [maskFrom_append_plain hregion fun x hx => isMark_of_le (hlong x hx)]
        have hrest := ih _ hs hregion s rfl
        split
        · exact .keep c hrest
        · refine .blank ?_ hrest
          rintro rfl
          exact absurd (hlong 0x0A (by simp [encodeChar_feed])) (by decide)

namespace Blanks

variable {s t : List Char} {out : List UInt8}

theorem length_eq (h : Blanks s out) : out.length = (encode s).length := by
  induction h with
  | nil => rfl
  | keep c _ ih => rw [List.length_append, ih, Text.Utf8.encode_cons, List.length_append]
  | blank _ _ ih =>
    rw [List.length_append, List.length_replicate, ih, Text.Utf8.encode_cons, List.length_append]

theorem encode_replicate_blank (n : Nat) :
    encode (List.replicate n ' ') = List.replicate n 0x20 := by
  induction n with
  | zero => rfl
  | succ n ih =>
    have hblank : encodeChar ' ' = [0x20] := rfl
    rw [List.replicate_succ, Text.Utf8.encode_cons, ih, hblank, List.replicate_succ,
      List.singleton_append]

/-- The bytes are those of a text again. -/
theorem exists_encode (h : Blanks s out) : ∃ t, out = encode t := by
  induction h with
  | nil => exact ⟨[], rfl⟩
  | keep c _ ih =>
    obtain ⟨t, rfl⟩ := ih
    exact ⟨c :: t, (Text.Utf8.encode_cons c t).symm⟩
  | @blank c _ _ _ _ ih =>
    obtain ⟨t, rfl⟩ := ih
    refine ⟨List.replicate (encodeChar c).length ' ' ++ t, ?_⟩
    rw [Text.Utf8.encode_append, encode_replicate_blank]

/-- The bytes of the characters of each part of a text stand together. -/
theorem exists_append (h : Blanks (s ++ t) out) :
    ∃ front back, out = front ++ back ∧ Blanks s front ∧ Blanks t back := by
  induction s generalizing out with
  | nil => exact ⟨[], out, rfl, .nil, h⟩
  | cons c s ih =>
    cases h with
    | keep _ hrest =>
      obtain ⟨front, back, rfl, hfront, hback⟩ := ih hrest
      exact ⟨encodeChar c ++ front, back, by rw [List.append_assoc], .keep c hfront, hback⟩
    | blank hc hrest =>
      obtain ⟨front, back, rfl, hfront, hback⟩ := ih hrest
      exact ⟨_, back, by rw [List.append_assoc], .blank hc hfront, hback⟩

/-- A character of the text is kept or blanked over all its bytes. -/
theorem take_drop {c : Char} (h : Blanks (s ++ c :: t) out) :
    (out.drop (size s)).take (encodeChar c).length = encodeChar c ∨
      (out.drop (size s)).take (encodeChar c).length =
        List.replicate (encodeChar c).length 0x20 := by
  obtain ⟨front, back, rfl, hfront, hback⟩ := h.exists_append
  have hlength : front.length = size s := by rw [hfront.length_eq, Text.Utf8.length_encode]
  rw [← hlength, List.drop_left]
  cases hback with
  | keep _ _ => exact .inl List.take_left
  | blank _ _ =>
    refine .inr ?_
    rw [List.take_left' (List.length_replicate)]

end Blanks

/-! ## What a byte belongs to -/

/-- What each byte belongs to, from a region on. The marks of a comment belong
    to it; the quotes around a literal are code. -/
def regionsFrom : Region → List UInt8 → List Region
  | _, [] => []
  | .code, [_] => [.code]
  | .code, a :: b :: rest =>
    if a == 0x2F && b == 0x2F then .lineComment :: .lineComment :: regionsFrom .lineComment rest
    else if a == 0x2F && b == 0x2A then
      .blockComment :: .blockComment :: regionsFrom .blockComment rest
    else .code :: regionsFrom (if isQuote a then .literal a else .code) (b :: rest)
  | .lineComment, b :: rest =>
    if b == 0x0A then .code :: regionsFrom .code rest
    else .lineComment :: regionsFrom .lineComment rest
  | .blockComment, [_] => [.blockComment]
  | .blockComment, a :: b :: rest =>
    if a == 0x2A && b == 0x2F then .blockComment :: .blockComment :: regionsFrom .code rest
    else .blockComment :: regionsFrom .blockComment (b :: rest)
  | .literal q, [b] => [if b == q || b == 0x0A then .code else .literal q]
  | .literal q, a :: b :: rest =>
    if a == 0x5C && b != 0x0A then .literal q :: .literal q :: regionsFrom (.literal q) rest
    else if a == q || a == 0x0A then .code :: regionsFrom .code (b :: rest)
    else .literal q :: regionsFrom (.literal q) (b :: rest)

/-- What each byte of a source belongs to. -/
def regions (source : List UInt8) : List Region :=
  regionsFrom .code source

/-- A byte as it is shown in a region. -/
def Region.shown (region : Region) (b : UInt8) : UInt8 :=
  if region = .code ∨ b = 0x0A then b else 0x20

theorem Region.shown_code (b : UInt8) : Region.shown .code b = b :=
  if_pos (.inl rfl)

theorem Region.shown_of_ne {region : Region} (hregion : region ≠ .code) {b : UInt8}
    (hb : b ≠ 0x0A) : region.shown b = 0x20 :=
  if_neg (not_or.mpr ⟨hregion, hb⟩)

theorem Region.shown_cases (region : Region) (b : UInt8) :
    region.shown b = b ∨ region.shown b = 0x20 := by
  rw [Region.shown]
  split
  · exact .inl rfl
  · exact .inr rfl

theorem Region.shown_eq_feed_iff (region : Region) {b : UInt8} :
    region.shown b = 0x0A ↔ b = 0x0A := by
  rw [Region.shown]
  split
  · rfl
  · rename_i h
    exact iff_of_false (by decide) (fun hb => h (.inr hb))

theorem Region.shown_blockComment (b : UInt8) :
    Region.shown .blockComment b = if b == 0x0A then 0x0A else 0x20 := by
  by_cases h : b = 0x0A <;> simp [Region.shown, h]

/-- Masking shows each byte as in the region to which it belongs. -/
theorem maskFrom_eq_zipWith (region : Region) (bytes : List UInt8) :
    maskFrom region bytes = List.zipWith Region.shown (regionsFrom region bytes) bytes := by
  fun_induction maskFrom region bytes with
  | case1 region => cases region <;> rfl
  | case2 b => simp [regionsFrom, Region.shown_code]
  | case3 a b rest h ih =>
    obtain ⟨rfl, rfl⟩ : a = 0x2F ∧ b = 0x2F := by simpa using h
    rw [regionsFrom, if_pos h, ih]
    rfl
  | case4 a b rest h h' ih =>
    obtain ⟨rfl, rfl⟩ : a = 0x2F ∧ b = 0x2A := by simpa using h'
    rw [regionsFrom, if_neg h, if_pos h', ih]
    rfl
  | case5 a b rest h h' ih =>
    rw [regionsFrom, if_neg h, if_neg h', List.zipWith_cons_cons, Region.shown_code, ih]
  | case6 b rest h ih =>
    rw [regionsFrom, if_pos h, List.zipWith_cons_cons, Region.shown_code, ih, beq_iff_eq.mp h]
  | case7 b rest h ih =>
    have hb : b ≠ 0x0A := by simpa using h
    rw [regionsFrom, if_neg h, List.zipWith_cons_cons, Region.shown_of_ne (by simp) hb, ih]
  | case8 b => rw [regionsFrom, List.zipWith_cons_cons, Region.shown_blockComment]; rfl
  | case9 a b rest h ih =>
    obtain ⟨rfl, rfl⟩ : a = 0x2A ∧ b = 0x2F := by simpa using h
    rw [regionsFrom, if_pos h, ih]
    rfl
  | case10 a b rest h ih =>
    rw [regionsFrom, if_neg h, List.zipWith_cons_cons, Region.shown_blockComment, ih]
  | case11 q b =>
    by_cases h : b = q ∨ b = 0x0A
    · simp [regionsFrom, h, Region.shown_code]
    · obtain ⟨hq, hb⟩ := not_or.mp h
      simp [regionsFrom, hq, hb, Region.shown_of_ne]
  | case12 q a b rest h ih =>
    obtain ⟨rfl, hb⟩ : a = 0x5C ∧ b ≠ 0x0A := by simpa using h
    rw [regionsFrom, if_pos h, List.zipWith_cons_cons, List.zipWith_cons_cons,
      Region.shown_of_ne (by simp) (by decide), Region.shown_of_ne (by simp) hb, ih]
  | case13 q a b rest h h' ih =>
    rw [regionsFrom, if_neg h, if_pos h', List.zipWith_cons_cons, Region.shown_code, ih]
  | case14 q a b rest h h' ih =>
    have ha : a ≠ 0x0A := fun ha => h' (by simp [ha])
    rw [regionsFrom, if_neg h, if_neg h', List.zipWith_cons_cons,
      Region.shown_of_ne (by simp) ha, ih]

theorem length_regionsFrom (region : Region) (bytes : List UInt8) :
    (regionsFrom region bytes).length = bytes.length := by
  fun_induction regionsFrom region bytes <;> simp_all

/-! ## Masking twice -/

/-- The region in which masked bytes are read again: comments are gone from
    them, literals are not. -/
def Region.masked : Region → Region
  | .code | .lineComment | .blockComment => .code
  | .literal q => .literal q

/-- Of a masked source, the first byte is the one of the source or a blank. -/
theorem head?_maskFrom {region : Region} (hregion : region.IsQuoted) (b : UInt8)
    (rest : List UInt8) :
    (maskFrom region (b :: rest)).head? = some b ∨
      (maskFrom region (b :: rest)).head? = some 0x20 := by
  obtain ⟨next, -, hkept | ⟨-, hblank⟩ | ⟨-, d, more, -, -, -, hpair⟩⟩ :=
    maskFrom_cons_cases hregion b rest
  · exact .inl (by rw [hkept, List.head?_cons])
  · exact .inr (by rw [hblank, List.head?_cons])
  · exact .inr (by rw [hpair, List.head?_cons])

/-- Code that opens no comment is kept. -/
theorem maskFrom_code_cons {a : UInt8} {out : List UInt8}
    (h : a = 0x2F → out.head? ≠ some 0x2F ∧ out.head? ≠ some 0x2A) :
    maskFrom .code (a :: out) = a :: maskFrom (if isQuote a then .literal a else .code) out := by
  cases out with
  | nil => simp [maskFrom]
  | cons b rest =>
    have hline : ¬ (a = 0x2F ∧ b = 0x2F) := fun hab => (h hab.1).1 (by simp [hab.2])
    have hblock : ¬ (a = 0x2F ∧ b = 0x2A) := fun hab => (h hab.1).2 (by simp [hab.2])
    simp [maskFrom, hline, hblock]

theorem maskFrom_code_feed (out : List UInt8) :
    maskFrom .code (0x0A :: out) = 0x0A :: maskFrom .code out :=
  maskFrom_code_cons fun h => absurd h (by decide)

/-- A quote or the end of its line closes a literal. -/
theorem maskFrom_literal_cons {q a : UInt8} (hq : isQuote q = true) (ha : a = q ∨ a = 0x0A)
    (out : List UInt8) : maskFrom (.literal q) (a :: out) = a :: maskFrom .code out := by
  have hback : a ≠ 0x5C := by
    rcases ha with rfl | rfl
    · exact (ne_of_isQuote hq).2.2.1
    · decide
  cases out with
  | nil => simp [maskFrom, ha]
  | cons b rest => simp [maskFrom, hback, ha]

/-- What is masked stays as it is when it is masked again. -/
theorem maskFrom_maskFrom {region : Region} (hregion : region.IsQuoted) (bytes : List UInt8) :
    maskFrom region.masked (maskFrom region bytes) = maskFrom region bytes := by
  have hcode := Region.isQuoted_code
  -- follows the first run: where that one is in a comment, the second one
  -- finds blanks and line feeds in code
  fun_induction maskFrom region bytes with
  | case1 region => cases region <;> rfl
  | case2 b => rfl
  | case3 a b rest h ih =>
    rw [Region.masked, maskFrom_cons_blank hcode, maskFrom_cons_blank hcode]
    exact congrArg (0x20 :: 0x20 :: ·) (ih trivial)
  | case4 a b rest h h' ih =>
    rw [Region.masked, maskFrom_cons_blank hcode, maskFrom_cons_blank hcode]
    exact congrArg (0x20 :: 0x20 :: ·) (ih trivial)
  | case5 a b rest h h' ih =>
    -- no comment opens: behind a slash stands what stood there, or a blank
    have hopens : a = 0x2F → ∀ x : UInt8, x = 0x2F ∨ x = 0x2A →
        (maskFrom (if isQuote a then .literal a else .code) (b :: rest)).head? ≠ some x := by
      rintro rfl x hx
      have hb : b ≠ x := by
        rintro rfl
        rcases hx with rfl | rfl
        · exact h rfl
        · exact h' rfl
      rcases head?_maskFrom hcode b rest with hhead | hhead
      · simpa [isQuote, hhead] using hb
      · rcases hx with rfl | rfl <;> simp [isQuote, hhead]
    have hnext : (if isQuote a then Region.literal a else .code).IsQuoted := by
      split
      · assumption
      · trivial
    have hmasked : (if isQuote a then Region.literal a else .code).masked =
        if isQuote a then Region.literal a else .code := by
      split <;> rfl
    have hrest := ih hnext
    rw [hmasked] at hrest
    have hkept := maskFrom_code_cons fun ha => ⟨hopens ha _ (.inl rfl), hopens ha _ (.inr rfl)⟩
    rw [Region.masked, hkept, hrest]
  | case6 b rest h ih =>
    rw [Region.masked, maskFrom_code_feed]
    exact congrArg (0x0A :: ·) (ih trivial)
  | case7 b rest h ih =>
    rw [Region.masked, maskFrom_cons_blank hcode]
    exact congrArg (0x20 :: ·) (ih trivial)
  | case8 b => rfl
  | case9 a b rest h ih =>
    rw [Region.masked, maskFrom_cons_blank hcode, maskFrom_cons_blank hcode]
    exact congrArg (0x20 :: 0x20 :: ·) (ih trivial)
  | case10 a b rest h ih =>
    have hrest := ih trivial
    rw [Region.masked] at hrest ⊢
    split
    · rw [maskFrom_code_feed, hrest]
    · rw [maskFrom_cons_blank hcode, hrest]
  | case11 q b =>
    rw [Region.masked]
    split
    · rename_i hb
      exact maskFrom_literal_cons hregion (by simpa using hb) []
    · exact maskFrom_cons_blank hregion []
  | case12 q a b rest h ih =>
    rw [Region.masked, maskFrom_cons_blank hregion, maskFrom_cons_blank hregion]
    exact congrArg (0x20 :: 0x20 :: ·) (ih hregion)
  | case13 q a b rest h h' ih =>
    rw [Region.masked, maskFrom_literal_cons hregion (by simpa using h')]
    exact congrArg (a :: ·) (ih trivial)
  | case14 q a b rest h h' ih =>
    rw [Region.masked, maskFrom_cons_blank hregion]
    exact congrArg (0x20 :: ·) (ih hregion)

/-! ## Sources -/

theorem blanks_mask (s : List Char) : Blanks s (mask (encode s)) :=
  blanks_maskFrom Region.isQuoted_code s

/-- The bytes of a masked text are well formed: nothing is substituted. -/
theorem decode?_mask (s : List Char) : decode? (mask (encode s)) = some (maskText (encode s)) := by
  obtain ⟨t, ht⟩ := (blanks_mask s).exists_encode
  rw [maskText, ht, Text.Utf8.decodeLossy_encode, Text.Utf8.decode?_encode]

theorem encode_maskText (s : List Char) : encode (maskText (encode s)) = mask (encode s) :=
  Text.Utf8.encode_of_decode? (decode?_mask s)

theorem mask_eq_zipWith (source : List UInt8) :
    mask source = List.zipWith Region.shown (regions source) source :=
  maskFrom_eq_zipWith .code source

theorem length_regions (source : List UInt8) : (regions source).length = source.length :=
  length_regionsFrom .code source

theorem length_mask (source : List UInt8) : (mask source).length = source.length := by
  rw [mask_eq_zipWith, List.length_zipWith, length_regions, Nat.min_self]

/-- A byte of a masked source is the byte of the source as its region shows it. -/
theorem getElem?_mask_eq_some_iff {source : List UInt8} {i : Nat} {b : UInt8} :
    (mask source)[i]? = some b ↔
      ∃ region x, (regions source)[i]? = some region ∧ source[i]? = some x ∧
        region.shown x = b := by
  rw [mask_eq_zipWith]
  exact List.getElem?_zipWith_eq_some

theorem exists_getElem?_mask {source : List UInt8} {i : Nat} {x : UInt8}
    (hx : source[i]? = some x) :
    ∃ region : Region, (regions source)[i]? = some region ∧
      (mask source)[i]? = some (region.shown x) := by
  have hi : i < (regions source).length := by
    rw [length_regions]
    exact (List.getElem?_eq_some_iff.mp hx).1
  have hregion := List.getElem?_eq_getElem hi
  exact ⟨_, hregion, getElem?_mask_eq_some_iff.mpr ⟨_, x, hregion, hx, rfl⟩⟩

theorem getElem?_mask_feed (source : List UInt8) (i : Nat) :
    (mask source)[i]? = some 0x0A ↔ source[i]? = some 0x0A := by
  constructor
  · intro h
    obtain ⟨region, x, -, hx, hshown⟩ := getElem?_mask_eq_some_iff.mp h
    rw [hx, region.shown_eq_feed_iff.mp hshown]
  · intro h
    obtain ⟨region, -, hmask⟩ := exists_getElem?_mask h
    rw [hmask, region.shown_eq_feed_iff.mpr rfl]

/-- Masking keeps the layout of a text: its bytes are those of a text of the
    same length with the same line feeds, and each character is kept or
    blanked over all its bytes. What is kept outside line feeds is the code. -/
theorem maskText_keeps_layout (s : List Char) :
    let source := encode s
    let masked := encode (maskText source)
    decode? (mask source) = some (maskText source) ∧
    masked.length = source.length ∧
    (∀ i : Nat, masked[i]? = some 0x0A ↔ source[i]? = some 0x0A) ∧
    (∀ (i : Nat) b, source[i]? = some b → masked[i]? = some b ∨ masked[i]? = some 0x20) ∧
    (∀ before c after, s = before ++ c :: after →
      let place := (masked.drop (size before)).take (encodeChar c).length
      place = encodeChar c ∨ place = List.replicate (encodeChar c).length 0x20) ∧
    masked = List.zipWith Region.shown (regions source) source := by
  intro source masked
  have hmasked : masked = mask source := encode_maskText s
  rw [hmasked]
  refine ⟨decode?_mask s, length_mask source, getElem?_mask_feed source, ?_, ?_,
    mask_eq_zipWith source⟩
  · intro i b hb
    obtain ⟨region, -, hmask⟩ := exists_getElem?_mask hb
    rw [hmask]
    exact (region.shown_cases b).imp (congrArg some) (congrArg some)
  · rintro before c after rfl
    exact (blanks_mask (before ++ c :: after)).take_drop

/-- An escape takes its character with it, however many bytes that has. -/
example : mask (encode ['"', '\\', 'é', '"', 'é']) =
    encode ['"', ' ', ' ', ' ', '"', 'é'] := by
  decide

/-! ## Masked sources -/

theorem mask_mask (source : List UInt8) : mask (mask source) = mask source :=
  maskFrom_maskFrom Region.isQuoted_code source

theorem maskText_maskText (s : List Char) :
    maskText (encode (maskText (encode s))) = maskText (encode s) := by
  rw [encode_maskText, maskText, mask_mask, maskText]

/-- Two sources that differ inside comments and literals at most. -/
structure SameCode (source other : List UInt8) : Prop where
  regions_eq : regions other = regions source
  code_eq : ∀ i < source.length, (regions source)[i]? = some .code → other[i]? = source[i]?
  feed_iff : ∀ i < source.length, other[i]? = some 0x0A ↔ source[i]? = some 0x0A

theorem SameCode.mask_eq {source other : List UInt8} (h : SameCode source other) :
    mask other = mask source := by
  have hlength : other.length = source.length := by
    rw [← length_regions other, h.regions_eq, length_regions]
  refine List.ext_getElem? fun i => ?_
  by_cases hi : i < source.length
  · have hx := List.getElem?_eq_getElem hi
    have hy := List.getElem?_eq_getElem (hlength ▸ hi : i < other.length)
    obtain ⟨region, hregion, hmask⟩ := exists_getElem?_mask hx
    obtain ⟨region', hregion', hmask'⟩ := exists_getElem?_mask hy
    rw [h.regions_eq, hregion] at hregion'
    obtain rfl := Option.some_inj.mp hregion'
    rw [hmask, hmask', Option.some_inj]
    by_cases hcode : region = .code
    · have hsame := h.code_eq i hi (hcode ▸ hregion)
      rw [hx, hy, Option.some_inj] at hsame
      rw [hsame]
    · have hfeed := h.feed_iff i hi
      rw [hx, hy, Option.some_inj, Option.some_inj] at hfeed
      by_cases hsource : source[i] = 0x0A
      · rw [hsource, hfeed.mpr hsource]
      · rw [Region.shown_of_ne hcode hsource,
          Region.shown_of_ne hcode (fun hother => hsource (hfeed.mp hother))]
  · rw [List.getElem?_eq_none (by rw [length_mask]; omega),
      List.getElem?_eq_none (by rw [length_mask]; omega)]

/-- The anchors of a source are those of its masked text, which masking does
    not change any more; what stands in comments and literals is not seen. -/
theorem ofSource_maskText (s : List Char) :
    maskText (encode (maskText (encode s))) = maskText (encode s) ∧
    ofSource (encode (maskText (encode s))) = ofSource (encode s) ∧
    ∀ t, SameCode (encode s) (encode t) → ofSource (encode t) = ofSource (encode s) := by
  refine ⟨maskText_maskText s, ?_, ?_⟩
  · rw [ofSource, maskText_maskText, ofSource]
  · intro t ht
    have htext : maskText (encode t) = maskText (encode s) := by
      rw [maskText, ht.mask_eq, maskText]
    rw [ofSource, htext, ofSource]

/-- A brace that moves from a comment to a literal is not seen in either. -/
theorem ofSource_other_comment :
    let s := "/*\x7d*/f()\x7b\"x"
    let t := "/*x*/f()\x7b\"\x7d"
    SameCode (encode s.toList) (encode t.toList) ∧
      ofSource (encode t.toList) = ofSource (encode s.toList) := by
  intro s t
  have hsame : SameCode (encode s.toList) (encode t.toList) :=
    ⟨by decide, by decide, by decide⟩
  exact ⟨hsame, (ofSource_maskText s.toList).2.2 t.toList hsame⟩

end CompilerRemarks.Anchor
