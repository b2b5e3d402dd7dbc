/-
  CompilerRemarks.Proofs.Text.Numeral

  What decimal numerals are read from: the digits of a number are read as that
  number (`digits?_toDigits`), and a word of 32 bits is read just from its
  digits with an optional plus sign (`word32?_eq_some_iff`), between blanks
  where the text is trimmed first (`word32?_trim_eq_some_iff`).
-/
import CompilerRemarks.Proofs.Text.Blank
import CompilerRemarks.Text.Numeral

namespace CompilerRemarks.Text

variable {s : List Char}

/-! ## Digits -/

theorem digitValue?_of_isDigit {c : Char} (h : c.isDigit = true) :
    digitValue? c = some (c.toNat - 48) := by
  obtain ⟨hlo, hhi⟩ : 48 ≤ c.toNat ∧ c.toNat ≤ 57 := Char.isDigit_iff_toNat.mp h
  simp [digitValue?, hlo, hhi]

theorem isDigit_of_digitValue? {c : Char} {d : Nat} (h : digitValue? c = some d) (hd : d < 10) :
    c.isDigit = true ∧ d = c.toNat - 48 := by
  have hdigit : 48 ≤ c.toNat ∧ c.toNat ≤ 57 := by
    simp only [digitValue?, Bool.and_eq_true, decide_eq_true_eq] at h
    split at h
    · assumption
    · -- letters stand for ten and more
      split at h
      · cases h
        omega
      · split at h
        · cases h
          omega
        · cases h
  have hisDigit : c.isDigit = true := Char.isDigit_iff_toNat.mpr hdigit
  exact ⟨hisDigit, Option.some.inj (h.symm.trans (digitValue?_of_isDigit hisDigit))⟩

theorem isBlank_of_isDigit {c : Char} (h : c.isDigit = true) : isBlank c = false := by
  obtain ⟨hlo, hhi⟩ : 48 ≤ c.toNat ∧ c.toNat ≤ 57 := Char.isDigit_iff_toNat.mp h
  simp only [isBlank, Bool.or_eq_false_iff, Bool.and_eq_false_iff, decide_eq_false_iff_not,
    beq_eq_false_iff_ne]
  omega

theorem digitsFrom?_ten_iff {acc n : Nat} :
    digitsFrom? 10 acc s = some n ↔
      (∀ c ∈ s, c.isDigit = true) ∧ Nat.ofDigitChars 10 s acc = n := by
  induction s generalizing acc with
  | nil => simp [digitsFrom?]
  | cons c rest ih =>
    rw [List.forall_mem_cons, Nat.ofDigitChars_cons]
    constructor
    · intro h
      cases hvalue : digitValue? c with
      | none => simp [digitsFrom?, hvalue] at h
      | some d =>
        by_cases hd : d < 10
        · obtain ⟨hc, rfl⟩ := isDigit_of_digitValue? hvalue hd
          simp only [digitsFrom?, hvalue, hd, if_true, ih, Nat.mul_comm acc] at h
          exact ⟨⟨hc, h.1⟩, h.2⟩
        · simp [digitsFrom?, hvalue, hd] at h
    · rintro ⟨⟨hc, hrest⟩, hn⟩
      have hd : c.toNat - 48 < 10 := by
        have hhi : c.toNat ≤ 57 := (Char.isDigit_iff_toNat.mp hc).2
        omega
      simp only [digitsFrom?, digitValue?_of_isDigit hc, hd, if_true, ih, Nat.mul_comm acc]
      exact ⟨hrest, hn⟩

theorem digits?_ten_iff {n : Nat} :
    digits? 10 s = some n ↔
      s ≠ [] ∧ (∀ c ∈ s, c.isDigit = true) ∧ Nat.ofDigitChars 10 s 0 = n := by
  cases s with
  | nil => simp [digits?]
  | cons c rest => simp [digits?, digitsFrom?_ten_iff]

theorem digits?_toDigits (n : Nat) : digits? 10 (Nat.toDigits 10 n) = some n :=
  digits?_ten_iff.mpr ⟨Nat.toDigits_ne_nil,
    fun _ hc => Nat.isDigit_of_mem_toDigits (by decide) (by decide) hc,
    Nat.ofDigitChars_toDigits (by decide) (by decide)⟩

/-! ## Words of 32 bits -/

/-- A text writes a number by decimal digits, leading zeros among them, and a
    plus sign or none before them. -/
def Writes (s : List Char) (n : Nat) : Prop :=
  ∃ sign digits, s = sign ++ digits ∧ (sign = [] ∨ sign = ['+']) ∧ digits ≠ [] ∧
    (∀ c ∈ digits, c.isDigit = true) ∧ Nat.ofDigitChars 10 digits 0 = n

theorem writes_plus_iff {rest : List Char} {n : Nat} :
    Writes ('+' :: rest) n ↔ digits? 10 rest = some n := by
  rw [digits?_ten_iff]
  constructor
  · rintro ⟨sign, digits, hs, rfl | rfl, hne, hdigits, hn⟩
    · -- the plus sign is no digit
      rw [List.nil_append] at hs
      rw [← hs, List.forall_mem_cons] at hdigits
      exact absurd hdigits.1 (by decide)
    · cases hs
      exact ⟨hne, hdigits, hn⟩
  · rintro ⟨hne, hdigits, hn⟩
    exact ⟨['+'], rest, rfl, Or.inr rfl, hne, hdigits, hn⟩

theorem writes_iff_of_head {n : Nat} (h : s.head? ≠ some '+') :
    Writes s n ↔ digits? 10 s = some n := by
  rw [digits?_ten_iff]
  constructor
  · rintro ⟨sign, digits, rfl, rfl | rfl, hdigits⟩
    · exact hdigits
    · exact absurd rfl h
  · intro hdigits
    exact ⟨[], s, rfl, Or.inl rfl, hdigits⟩

theorem decimalBelow?_eq_some_iff {bound n : Nat} :
    decimalBelow? bound s = some n ↔ Writes s n ∧ n < bound := by
  unfold decimalBelow?
  rw [Option.filter_eq_some_iff, decide_eq_true_eq]
  refine and_congr_left fun _ => ?_
  split
  case h_1 rest => exact writes_plus_iff.symm
  case h_2 hplus =>
    refine (writes_iff_of_head ?_).symm
    intro hhead
    obtain ⟨rest, rfl⟩ := List.head?_eq_some_iff.mp hhead
    exact hplus rest rfl

theorem word32?_eq_some_iff {n : UInt32} : word32? s = some n ↔ Writes s n.toNat := by
  rw [word32?, Option.map_eq_some_iff]
  constructor
  · rintro ⟨m, hm, rfl⟩
    obtain ⟨hwrites, hlt⟩ := decimalBelow?_eq_some_iff.mp hm
    rwa [Nat.toUInt32_eq, UInt32.toNat_ofNat_of_lt' hlt]
  · intro hwrites
    exact ⟨n.toNat, decimalBelow?_eq_some_iff.mpr ⟨hwrites, n.toNat_lt⟩, UInt32.ofNat_toNat⟩

/-- No blank stands at either end of what writes a number. -/
theorem Writes.ends {n : Nat} (h : Writes s n) :
    s ≠ [] ∧ (∀ c ∈ s.head?, isBlank c = false) ∧ ∀ c ∈ s.getLast?, isBlank c = false := by
  obtain ⟨sign, digits, rfl, hsign, hne, hdigits, -⟩ := h
  have hlast : ∀ c ∈ (sign ++ digits).getLast?, isBlank c = false := by
    intro c hc
    rw [List.getLast?_append, List.getLast?_eq_some_getLast hne, Option.some_or] at hc
    cases hc
    exact isBlank_of_isDigit (hdigits _ (List.getLast_mem hne))
  refine ⟨by simp [hne], ?_, hlast⟩
  rcases hsign with rfl | rfl
  · intro c hc
    exact isBlank_of_isDigit (hdigits c (List.mem_of_head? hc))
  · intro c hc
    cases hc
    decide

/-- A word of 32 bits is read off a trimmed text if the text writes it with
    blanks around. -/
theorem word32?_trim_eq_some_iff {n : UInt32} :
    word32? (trim s) = some n ↔
      ∃ gap core gap', s = gap ++ (core ++ gap') ∧ (∀ c ∈ gap, isBlank c = true) ∧
        (∀ c ∈ gap', isBlank c = true) ∧ Writes core n.toNat := by
  rw [word32?_eq_some_iff]
  constructor
  · intro hwrites
    obtain ⟨hne, hfirst, hlast⟩ := hwrites.ends
    obtain ⟨gap, gap', hgap, hgap', hs⟩ := (trim_eq_iff hne hfirst hlast).mp rfl
    exact ⟨gap, trim s, gap', hs, hgap, hgap', hwrites⟩
  · rintro ⟨gap, core, gap', hs, hgap, hgap', hwrites⟩
    obtain ⟨hne, hfirst, hlast⟩ := hwrites.ends
    rwa [(trim_eq_iff hne hfirst hlast).mpr ⟨gap, gap', hgap, hgap', hs⟩]

end CompilerRemarks.Text
