/-
  CompilerRemarks.Proofs.Remark.Chunks

  Reading a record in chunks. Whatever the chunks are, the reader hands out the
  lines of the stream one after the other (`streamLines_of_next?_eq_some`), so a read
  that is not cancelled is the filter on these lines. A cancellation only ever
  ends the read early: the read is one loop (`drain_eq`) in which a cancellation
  decides nothing but when to stop (`Trip.stops`), and one that comes later
  stops no earlier.
-/
import CompilerRemarks.Proofs.Remark.Documents
import CompilerRemarks.Proofs.Remark.Lines

namespace CompilerRemarks.Remark

/-! ## The first line of some bytes -/

/-- The raw line that some bytes start with, and the bytes after it. -/
inductive FirstLine : (bytes raw rest : List UInt8) → Prop where
  | whole {body rest : List UInt8} (h : lineFeed ∉ body) :
      FirstLine (body ++ lineFeed :: rest) (body ++ [lineFeed]) rest
  | last {bytes : List UInt8} (h : lineFeed ∉ bytes) : FirstLine bytes bytes []

/-- Bytes without a line feed belong to the line that follows. -/
theorem FirstLine.prepend {bytes raw rest start : List UInt8} (h : FirstLine bytes raw rest)
    (hstart : lineFeed ∉ start) : FirstLine (start ++ bytes) (start ++ raw) rest := by
  cases h with
  | @whole body rest h =>
    have hbody : lineFeed ∉ start ++ body := by
      rw [List.mem_append]
      exact not_or.mpr ⟨hstart, h⟩
    rw [← List.append_assoc, ← List.append_assoc]
    exact .whole hbody
  | last h =>
    refine .last ?_
    rw [List.mem_append]
    exact not_or.mpr ⟨hstart, h⟩

/-- The lines of some bytes, from the first on. -/
theorem FirstLine.streamLines_eq {bytes raw rest : List UInt8} (h : FirstLine bytes raw rest) :
    streamLines bytes =
      if raw = [] then []
      else
        match lineText? raw with
        | some line => line :: streamLines rest
        | none => [] := by
  cases h with
  | @whole body rest hbody =>
    rewrite [streamLines_cons hbody, if_neg (List.append_ne_nil_of_right_ne_nil body (by simp))]
    rfl
  | last hbytes =>
    split
    · rename_i hnil
      rw [hnil, streamLines_nil]
    · rename_i hne
      rw [streamLines_of_not_mem hbytes hne, streamLines_nil]
      cases lineText? bytes <;> rfl

theorem FirstLine.length_lt {bytes raw rest : List UInt8} (h : FirstLine bytes raw rest)
    (hne : raw ≠ []) : rest.length < bytes.length := by
  cases h with
  | whole hbody =>
    rw [List.length_append, List.length_cons]
    omega
  | last hbytes => exact List.length_pos_iff.mpr hne

theorem splitLine?_of_not_mem {bytes : List UInt8} (h : lineFeed ∉ bytes) :
    splitLine? bytes = none := by
  induction bytes with
  | nil => rfl
  | cons b rest ih =>
    rw [List.mem_cons, not_or] at h
    have hb : (b == lineFeed) = false := beq_false_of_ne (Ne.symm h.1)
    rw [splitLine?, hb, if_neg Bool.false_ne_true, ih h.2]
    rfl

theorem splitLine?_append_cons {body : List UInt8} (h : lineFeed ∉ body) (rest : List UInt8) :
    splitLine? (body ++ lineFeed :: rest) = some (body ++ [lineFeed], rest) := by
  induction body with
  | nil => rfl
  | cons b more ih =>
    rw [List.mem_cons, not_or] at h
    have hb : (b == lineFeed) = false := beq_false_of_ne (Ne.symm h.1)
    rw [List.cons_append, splitLine?, hb, if_neg Bool.false_ne_true, ih h.2]
    rfl

/-! ## Gathering a line -/

/-- The bytes that a reader has not handed out yet. -/
def ChunkReader.bytes (r : ChunkReader) : List UInt8 :=
  r.buffer ++ (r.chunks.map (·.1)).flatten

/-- Without a cancellation a line is gathered, and it is the first of the bytes
    that are left. -/
theorem gather_never (lines : Nat) (chunks : List (List UInt8 × Nat))
    (acc buffer : List UInt8) (asked : Nat) :
    ∃ raw r, gather .never lines chunks acc buffer asked = some (acc ++ raw, r) ∧
      FirstLine (buffer ++ (chunks.map (·.1)).flatten) raw r.bytes := by
  induction chunks generalizing acc buffer asked with
  | nil =>
    by_cases hmem : lineFeed ∈ buffer
    · obtain ⟨body, rest, rfl, hbody⟩ := List.eq_append_cons_of_mem hmem
      refine ⟨body ++ [lineFeed], ⟨rest, [], asked⟩, ?_, ?_⟩
      · rw [gather, splitLine?_append_cons hbody]
      · simpa [ChunkReader.bytes] using FirstLine.whole hbody
    · refine ⟨buffer, ⟨[], [], asked⟩, ?_, ?_⟩
      · rw [gather, splitLine?_of_not_mem hmem]
        rfl
      · simpa [ChunkReader.bytes] using FirstLine.last hmem
  | cons head more ih =>
    obtain ⟨chunk, i⟩ := head
    by_cases hmem : lineFeed ∈ buffer
    · obtain ⟨body, rest, rfl, hbody⟩ := List.eq_append_cons_of_mem hmem
      refine ⟨body ++ [lineFeed], ⟨rest, (chunk, i) :: more, asked⟩, ?_, ?_⟩
      · rw [gather, splitLine?_append_cons hbody]
      · rw [List.append_assoc, List.cons_append]
        exact .whole hbody
    -- the line goes on in the next chunk
    · obtain ⟨raw, r, hgather, hfirst⟩ := ih (acc ++ buffer) chunk (i + 1)
      refine ⟨buffer ++ raw, r, ?_, ?_⟩
      · rw [gather, splitLine?_of_not_mem hmem, ← List.append_assoc]
        exact hgather
      · rw [List.map_cons, List.flatten_cons]
        exact hfirst.prepend hmem

/-- A cancellation can keep a line from being gathered, but not change it. -/
theorem gather_cases (trip : Trip) (lines : Nat) (chunks : List (List UInt8 × Nat))
    (acc buffer : List UInt8) (asked : Nat) :
    gather trip lines chunks acc buffer asked = none ∨
      gather trip lines chunks acc buffer asked = gather .never 0 chunks acc buffer asked := by
  induction chunks generalizing acc buffer asked with
  | nil =>
    rw [gather, gather]
    cases splitLine? buffer with
    | some split => exact .inr rfl
    | none =>
      cases hwait : trip.atWait lines asked with
      | true => exact .inl rfl
      | false => exact .inr rfl
  | cons head more ih =>
    rw [gather, gather]
    cases splitLine? buffer with
    | some split => exact .inr rfl
    | none =>
      cases hwait : trip.atWait lines asked with
      | true => exact .inl rfl
      | false => exact ih _ _ _

/-! ## When a cancellation comes -/

namespace Trip

/-- The first of two cancellations comes no later than the second: at every
    moment at which the second has come, the first has. -/
structure NoLater (t u : Trip) : Prop where
  atLook : ∀ lines asked, u.atLook lines asked = true → t.atLook lines asked = true
  atWait : ∀ lines asked, u.atWait lines asked = true → t.atWait lines asked = true

theorem noLater_never (t : Trip) : t.NoLater never :=
  ⟨nofun, nofun⟩

theorem inLine_noLater {m n : Nat} (h : m ≤ n) : (inLine m).NoLater (inLine n) := by
  refine ⟨?_, nofun⟩
  intro lines _ hlook
  have hlines : n < lines := of_decide_eq_true hlook
  exact decide_eq_true (by omega)

/-- Whether the cancellation is noticed before another line is read. -/
def stops (t : Trip) (lines : Nat) (r : ChunkReader) : Bool :=
  t.atLook lines r.asked || (gather t lines r.chunks [] r.buffer r.asked).isNone

theorem gather_eq_none_of_atWait {t u : Trip} {lines : Nat}
    (h : ∀ asked, u.atWait lines asked = true → t.atWait lines asked = true)
    (chunks : List (List UInt8 × Nat)) (acc buffer : List UInt8) (asked : Nat)
    (hu : gather u lines chunks acc buffer asked = none) :
    gather t lines chunks acc buffer asked = none := by
  induction chunks generalizing acc buffer asked with
  | nil =>
    rw [gather] at hu ⊢
    split at hu
    · cases hu
    · split at hu
      · rename_i hwait
        rw [if_pos (h asked hwait)]
      · cases hu
  | cons head more ih =>
    rw [gather] at hu ⊢
    split at hu
    · cases hu
    · split at hu
      · rename_i hwait
        rw [if_pos (h asked hwait)]
      · split
        · rfl
        · exact ih _ _ _ hu

theorem stops_of_noLater {t u : Trip} (h : t.NoLater u) {lines : Nat} {r : ChunkReader}
    (hu : u.stops lines r = true) : t.stops lines r = true := by
  rw [stops, Bool.or_eq_true, Option.isNone_iff_eq_none] at hu ⊢
  rcases hu with hlook | hnone
  · exact .inl (h.atLook lines r.asked hlook)
  · exact .inr (gather_eq_none_of_atWait (h.atWait lines) r.chunks [] r.buffer r.asked hnone)

/-- A reader that never waits notices a cancellation between two lines only. -/
theorem stops_of_ready {t : Trip} {lines : Nat} (h : ∀ asked, t.atWait lines asked = false)
    (r : ChunkReader) : t.stops lines r = t.atLook lines r.asked := by
  have hsome : gather t lines r.chunks [] r.buffer r.asked ≠ none := by
    intro hnone
    have hready : ∀ asked, t.atWait lines asked = true → never.atWait lines asked = true := by
      intro asked hwait
      rw [h asked] at hwait
      exact absurd hwait Bool.false_ne_true
    have hnever := gather_eq_none_of_atWait hready r.chunks [] r.buffer r.asked hnone
    obtain ⟨raw, r', hgather, -⟩ := gather_never lines r.chunks [] r.buffer r.asked
    rw [hnever] at hgather
    cases hgather
  have hnot : (gather t lines r.chunks [] r.buffer r.asked).isNone = false := by
    rw [← Bool.not_eq_true, Option.isNone_iff_eq_none]
    exact hsome
  rw [stops, hnot, Bool.or_false]

end Trip

/-! ## Reading line by line -/

/-- The line that a reader hands out next, and the reader after it. -/
def ChunkReader.next? (r : ChunkReader) : Option (String × ChunkReader) :=
  match gather .never 0 r.chunks [] r.buffer r.asked with
  | none => none
  | some ([], _) => none
  | some (raw, r) => (lineText? raw).map (·, r)

theorem ChunkReader.next?_eq (r : ChunkReader) :
    ∃ raw r', FirstLine r.bytes raw r'.bytes ∧
      r.next? = if raw = [] then none else (lineText? raw).map (·, r') := by
  obtain ⟨raw, r', hgather, hfirst⟩ := gather_never 0 r.chunks [] r.buffer r.asked
  refine ⟨raw, r', hfirst, ?_⟩
  rw [next?, hgather]
  cases raw <;> rfl

/-- A reader that hands out nothing more has read all lines. -/
theorem streamLines_of_next?_eq_none {r : ChunkReader} (h : r.next? = none) :
    streamLines r.bytes = [] := by
  obtain ⟨raw, r', hfirst, hnext⟩ := r.next?_eq
  rw [hfirst.streamLines_eq]
  split
  · rfl
  · rename_i hne
    rw [h, if_neg hne] at hnext
    rw [Option.map_eq_none_iff.mp hnext.symm]

/-- A reader hands out the lines of its bytes in order. -/
theorem streamLines_of_next?_eq_some {r r' : ChunkReader} {line : String}
    (h : r.next? = some (line, r')) :
    streamLines r.bytes = line :: streamLines r'.bytes ∧ r'.bytes.length < r.bytes.length := by
  obtain ⟨raw, after, hfirst, hnext⟩ := r.next?_eq
  rw [h] at hnext
  by_cases hraw : raw = []
  · rw [if_pos hraw] at hnext
    cases hnext
  · rw [if_neg hraw] at hnext
    obtain ⟨text, htext, heq⟩ := Option.map_eq_some_iff.mp hnext.symm
    cases heq
    rw [hfirst.streamLines_eq, if_neg hraw, htext]
    exact ⟨rfl, hfirst.length_lt hraw⟩

/-- Reading is one loop, in which a cancellation only decides when to stop. -/
theorem drain_eq (trip : Trip) (fuel lines : Nat) (r : ChunkReader) (f : Filter) :
    drain trip (fuel + 1) lines r f =
      if trip.stops lines r then ⟨f.remarks, true⟩
      else
        match r.next? with
        | none => ⟨f.remarks, false⟩
        | some (line, r') => drain trip fuel (lines + 1) r' (f.push line).1 := by
  rw [drain, Trip.stops, ChunkReader.next?]
  cases hlook : trip.atLook lines r.asked with
  | true => rfl
  | false =>
    rcases gather_cases trip lines r.chunks [] r.buffer r.asked with hnone | hgather
    · rw [hnone]
      rfl
    · rw [hgather]
      obtain ⟨raw, r', hnever, -⟩ := gather_never 0 r.chunks [] r.buffer r.asked
      rw [hnever]
      cases raw with
      | nil => rfl
      | cons b more =>
        simp only [Bool.false_or, Option.isNone_some, Bool.false_eq_true, if_false, List.nil_append]
        cases lineText? (b :: more) <;> rfl

/-! ## Whole reads -/

theorem Filter.push_grows (f : Filter) (line : String) :
    f.remarks <+: (f.push line).1.remarks := by
  have hpushed := f.remarks_pushAll [line]
  exact ⟨_, hpushed.symm⟩

theorem Filter.pushAll_grows (f : Filter) {lines more : List String}
    (h : lines <+: more) : (f.pushAll lines).remarks <+: (f.pushAll more).remarks := by
  obtain ⟨rest, rfl⟩ := h
  have happend : f.pushAll (lines ++ rest) = (f.pushAll lines).pushAll rest := List.foldl_append
  rw [happend, (f.pushAll lines).remarks_pushAll rest]
  exact List.prefix_append _ _

theorem filterLines_grows (relevant : Path) {lines more : List String} (h : lines <+: more) :
    filterLines relevant lines <+: filterLines relevant more :=
  (Filter.new relevant).pushAll_grows h

/-- A read keeps what the filter had before. -/
theorem remarks_prefix_drain (trip : Trip) (fuel lines : Nat) (r : ChunkReader) (f : Filter) :
    f.remarks <+: (drain trip fuel lines r f).remarks := by
  induction fuel generalizing lines r f with
  | zero => exact List.prefix_rfl
  | succ fuel ih =>
    rw [drain_eq]
    split
    · exact List.prefix_rfl
    · cases r.next? with
      | none => exact List.prefix_rfl
      | some next => exact (f.push_grows next.1).trans (ih _ _ _)

/-- A cancellation that comes no later leaves no more. -/
theorem drain_prefix_of_noLater {t u : Trip} (h : t.NoLater u) (fuel lines : Nat)
    (r : ChunkReader) (f : Filter) :
    (drain t fuel lines r f).remarks <+: (drain u fuel lines r f).remarks := by
  induction fuel generalizing lines r f with
  | zero => exact List.prefix_rfl
  | succ fuel ih =>
    rw [drain_eq t]
    split
    · exact remarks_prefix_drain u _ _ _ _
    · rename_i ht
      have hu : ¬ u.stops lines r = true := fun hu => ht (Trip.stops_of_noLater h hu)
      rw [drain_eq u, if_neg hu]
      cases r.next? with
      | none => exact List.prefix_rfl
      | some next => exact ih _ _ _

/-- A read in which no cancellation was noticed is the one without any. -/
theorem drain_eq_never_of_not_cancelled {trip : Trip} {fuel lines : Nat} {r : ChunkReader}
    {f : Filter} (h : (drain trip fuel lines r f).cancelled = false) :
    drain trip fuel lines r f = drain .never fuel lines r f := by
  induction fuel generalizing lines r f with
  | zero => rfl
  | succ fuel ih =>
    have hnever : ¬ Trip.never.stops lines r = true := by
      rw [Trip.stops_of_ready fun _ => rfl]
      exact Bool.false_ne_true
    rw [drain_eq] at h
    rw [drain_eq trip, drain_eq .never, if_neg hnever]
    split at h
    · cases h
    · rename_i hstops
      rw [if_neg hstops]
      cases hnext : r.next? with
      | none => rfl
      | some next =>
        rw [hnext] at h
        exact ih h

/-- A read that is cancelled while line `n` is put together, without waiting,
    ends after that line, if the stream goes as far. -/
theorem drain_inLine {n fuel lines : Nat} {r : ChunkReader} (f : Filter)
    (hfuel : r.bytes.length < fuel) (hlines : lines ≤ n + 1) :
    drain (.inLine n) fuel lines r f =
      ⟨(f.pushAll ((streamLines r.bytes).take (n + 1 - lines))).remarks,
        decide (n + 1 - lines ≤ (streamLines r.bytes).length)⟩ := by
  induction fuel generalizing lines r f with
  | zero => omega
  | succ fuel ih =>
    rw [drain_eq, Trip.stops_of_ready fun _ => rfl]
    change (if decide (n < lines) = true then _ else _) = _
    by_cases hlook : n < lines
    · have hzero : n + 1 - lines = 0 := by omega
      simp [hlook, hzero, Filter.pushAll]
    · rw [if_neg (by simpa using hlook)]
      obtain ⟨k, hk⟩ : ∃ k, n + 1 - lines = k + 1 := ⟨n - lines, by omega⟩
      cases hnext : r.next? with
      | none =>
        rw [streamLines_of_next?_eq_none hnext, hk]
        rfl
      | some next =>
        obtain ⟨line, r'⟩ := next
        obtain ⟨hstream, hlt⟩ := streamLines_of_next?_eq_some hnext
        have hk' : n + 1 - (lines + 1) = k := by omega
        have hfuel' : r'.bytes.length < fuel := by omega
        have hrest := ih (f.push line).1 hfuel' (show lines + 1 ≤ n + 1 by omega)
        rw [hk'] at hrest
        rw [hstream, hk]
        simp [hrest, Filter.pushAll]

/-- A read that is not cancelled takes all lines of the stream. -/
theorem drain_never {fuel : Nat} {r : ChunkReader} (lines : Nat) (f : Filter)
    (hfuel : r.bytes.length < fuel) :
    drain .never fuel lines r f = ⟨(f.pushAll (streamLines r.bytes)).remarks, false⟩ := by
  -- a cancellation in a line that does not come is not noticed
  let last := (streamLines r.bytes).length
  have hlate := drain_inLine (n := lines + last) f hfuel (show lines ≤ lines + last + 1 by omega)
  have hcount : lines + last + 1 - lines = last + 1 := by omega
  rw [hcount, List.take_of_length_le (Nat.le_succ last),
    decide_eq_false (Nat.not_succ_le_self last)] at hlate
  have hcancelled := congrArg Outcome.cancelled hlate
  rw [← drain_eq_never_of_not_cancelled hcancelled, hlate]

/-! ## Chunks and cancellations -/

theorem flatten_numbered (chunks : List (List UInt8)) (start : Nat) :
    (((chunks.zipIdx start).filter (!·.1.isEmpty)).map (·.1)).flatten = chunks.flatten := by
  induction chunks generalizing start with
  | nil => rfl
  | cons chunk rest ih =>
    rw [List.zipIdx_cons, List.filter_cons]
    cases chunk with
    | nil => exact ih (start + 1)
    | cons b more =>
      rw [if_pos (by rfl), List.map_cons, List.flatten_cons, ih, List.flatten_cons]

/-- The lines of a record do not depend on its chunks, and a cancellation at
    any moment leaves a part of the remarks from the start on: no less than one
    that comes earlier, and all of them if it was not noticed. -/
theorem filterChunks_any_division (relevant : Path) (chunks : List (List UInt8)) :
    let lines := streamLines chunks.flatten
    filterChunks relevant chunks .never = ⟨filterLines relevant lines, false⟩ ∧
    (∀ trip, (filterChunks relevant chunks trip).remarks <+: filterLines relevant lines) ∧
    (∀ earlier later : Trip, earlier.NoLater later →
      (filterChunks relevant chunks earlier).remarks <+:
        (filterChunks relevant chunks later).remarks) ∧
    (∀ trip, (filterChunks relevant chunks trip).cancelled = false →
      filterChunks relevant chunks trip = ⟨filterLines relevant lines, false⟩) ∧
    filterChunks relevant chunks .atStart = ⟨[], true⟩ ∧
    ∀ n, filterChunks relevant chunks (.inLine n) =
      ⟨filterLines relevant (lines.take (n + 1)), decide (n < lines.length)⟩ := by
  intro lines
  let r : ChunkReader := ⟨[], chunks.zipIdx.filter (!·.1.isEmpty), 0⟩
  have hbytes : r.bytes = chunks.flatten := flatten_numbered chunks 0
  have hfuel : r.bytes.length < chunks.flatten.length + 1 := by
    rw [hbytes]
    omega
  have hnever : filterChunks relevant chunks .never = ⟨filterLines relevant lines, false⟩ := by
    have h := drain_never 0 (Filter.new relevant) hfuel
    rw [hbytes] at h
    exact h
  refine ⟨hnever, ?_, ?_, ?_, ?_, ?_⟩
  · intro trip
    have h := drain_prefix_of_noLater trip.noLater_never (chunks.flatten.length + 1) 0 r
      (Filter.new relevant)
    change _ <+: (filterChunks relevant chunks .never).remarks at h
    rw [hnever] at h
    exact h
  · intro earlier later hlater
    exact drain_prefix_of_noLater hlater _ _ _ _
  · intro trip htrip
    rw [← hnever]
    exact drain_eq_never_of_not_cancelled htrip
  · rfl
  · intro n
    have h := drain_inLine (Filter.new relevant) hfuel (Nat.zero_le (n + 1))
    rw [hbytes, Nat.sub_zero] at h
    exact h

/-- A character and the end of a line may be divided between chunks. -/
theorem filterChunks_divided_character :
    let chunks := [[0xC3], [0xA9, 13], [10, 97]]
    (Trip.inLine 0).NoLater (.inLine 1) ∧
    filterChunks ⟨"a.c"⟩ chunks .never = ⟨filterLines ⟨"a.c"⟩ ["é", "a"], false⟩ ∧
    (filterChunks ⟨"a.c"⟩ chunks (.inLine 0)).remarks <+:
      (filterChunks ⟨"a.c"⟩ chunks (.inLine 1)).remarks := by
  intro chunks
  have hlater : (Trip.inLine 0).NoLater (.inLine 1) := Trip.inLine_noLater (by omega)
  have hlines : streamLines chunks.flatten = ["é", "a"] := by decide
  obtain ⟨hnever, -, hgrows, -⟩ := filterChunks_any_division ⟨"a.c"⟩ chunks
  rw [hlines] at hnever
  exact ⟨hlater, hnever, hgrows _ _ hlater⟩

end CompilerRemarks.Remark
