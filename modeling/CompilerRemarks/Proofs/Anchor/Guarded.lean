/-
  CompilerRemarks.Proofs.Anchor.Guarded

  The search for anchors never leaves the text that it searches. Here the
  search is written once more with offsets into the text, and each step that
  offsets could spoil is guarded: cutting a text fails inside a character
  and behind the end, a difference fails below zero, a list fails behind its
  last element, and a loop fails that does not end (`Fault`). On every text
  the guarded search comes to its end, with the anchors that are found
  without guards (`guarded_search_eq`).

  Masking passes only bytes that it has seen (`maskFrom_stride`). Each part
  behind it is shown to be its unguarded counterpart, given that the offsets
  it starts from lie between characters. The heads do (`Stands`), a closing
  bracket is a character of its own, and from there only whole characters are
  skipped (`exists_split_of_nextCode?`).
-/
import Mathlib.Data.List.TakeWhile
import CompilerRemarks.Proofs.Anchor.Extents

namespace CompilerRemarks.Anchor

open Text.Utf8 (encode encodeChar size divide? divide?_eq_some_iff)

/-- Why a guarded step fails. -/
inductive Fault where
  /-- A cut behind the end of a text or inside one of its characters. -/
  | cut (offset : Nat)
  /-- A difference below zero. -/
  | underflow
  /-- An index behind the last element of a list. -/
  | outOfBounds (index : Nat)
  /-- A loop that does not end. -/
  | endless
  deriving DecidableEq, Repr

namespace Guarded

/-! ## Steps -/

/-- The difference of two numbers. -/
def minus (a b : Nat) : Except Fault Nat :=
  if b ≤ a then .ok (a - b) else .error .underflow

/-- The element of a list at an index. -/
def element {α : Type} (xs : List α) (i : Nat) : Except Fault α :=
  match xs[i]? with
  | some x => .ok x
  | none => .error (.outOfBounds i)

/-- The bytes with blanks in so many places from an index on. -/
def blank : Nat → List UInt8 → Nat → Except Fault (List UInt8)
  | 0, bytes, _ => .ok bytes
  | n + 1, bytes, i =>
    if i < bytes.length then blank n (bytes.set i 0x20) (i + 1) else .error (.outOfBounds i)

/-- The text before an offset. -/
def textBefore (s : List Char) (offset : Nat) : Except Fault (List Char) :=
  match divide? s offset with
  | some (front, _) => .ok front
  | none => .error (.cut offset)

/-- The text from an offset on. -/
def textFrom (s : List Char) (offset : Nat) : Except Fault (List Char) :=
  match divide? s offset with
  | some (_, back) => .ok back
  | none => .error (.cut offset)

/-- The text between two offsets. -/
def textBetween (s : List Char) (first last : Nat) : Except Fault (List Char) := do
  let front ← textBefore s last
  textFrom front first

/-! ## Masking -/

/-- How masking goes on from a byte: the region that follows, the bytes that
    are passed, and whether they are blanked. -/
structure Stride where
  region : Region
  width : Nat
  blanks : Bool

/-- The bytes that a stride passes, as masking shows them. -/
def Stride.shown (s : Stride) (bytes : List UInt8) : List UInt8 :=
  if s.blanks then List.replicate s.width 0x20 else bytes.take s.width

/-- Blanks what a stride from an index passes, if it is to be blanked. -/
def Stride.write (s : Stride) (bytes : List UInt8) (i : Nat) : Except Fault (List UInt8) :=
  if s.blanks then blank s.width bytes i else .ok bytes

/-- The stride from a byte, with a look at the next one. -/
def stride (region : Region) (b : UInt8) (next : Option UInt8) : Stride :=
  match region with
  | .code =>
    if b == 0x2F && next == some 0x2F then ⟨.lineComment, 2, true⟩
    else if b == 0x2F && next == some 0x2A then ⟨.blockComment, 2, true⟩
    else ⟨if isQuote b then .literal b else .code, 1, false⟩
  | .lineComment => if b == 0x0A then ⟨.code, 1, false⟩ else ⟨.lineComment, 1, true⟩
  | .blockComment =>
    if b == 0x2A && next == some 0x2F then ⟨.code, 2, true⟩ else ⟨.blockComment, 1, b != 0x0A⟩
  | .literal q =>
    if b == 0x5C && next.any (· != 0x0A) then ⟨.literal q, 2, true⟩
    else if b == q || b == 0x0A then ⟨.code, 1, false⟩
    else ⟨.literal q, 1, true⟩

/-- Blanks a source in place, from an index on. -/
def maskInPlace (source : List UInt8) :
    Nat → Region → Nat → List UInt8 → Except Fault (List UInt8)
  | 0, _, _, _ => .error .endless
  | fuel + 1, region, index, out =>
    if index < source.length then do
      let b ← element source index
      let s := stride region b source[index + 1]?
      let out ← s.write out index
      maskInPlace source fuel s.region (index + s.width) out
    else .ok out

/-! ## The search -/

/-- Walks on with `depth` brackets open from an index. -/
def closing (left right : UInt8) : Nat → Nat → List UInt8 → Except Fault (Option Nat)
  | _, _, [] => .ok none
  | depth, index, b :: rest =>
    if b == left then closing left right (depth + 1) (index + 1) rest
    else if b == right then do
      let depth ← minus depth 1
      if depth == 0 then .ok (some index) else closing left right depth (index + 1) rest
    else closing left right depth (index + 1) rest

/-- The offset of the bracket that closes the one at `start`. -/
def matching (bytes : List UInt8) (start : Nat) (left right : UInt8) :
    Except Fault (Option Nat) :=
  if bytes[start]? == some left then closing left right 0 start (bytes.drop start) else .ok none

/-- The line and column of an offset. -/
def position (starts : List Nat) (offset : Nat) : Except Fault Position := do
  let line := (starts.takeWhile (· ≤ offset)).length
  let lineStart ← element starts (line - 1)
  let column ← minus offset lineStart
  return ⟨clampWord line, clampWord (column + 1)⟩

/-- The range between two offsets. -/
def range (starts : List Nat) (first last : Nat) : Except Fault Range := do
  return ⟨← position starts first, ← position starts last⟩

/-- The offset of the first of a kind of character in a text. -/
def find? (c : Char) (s : List Char) : Option Nat :=
  if s.all (· != c) then none else some (size (s.takeWhile (· != c)))

/-- Whether a byte behind a condition ends a `do` loop: it is a semicolon, and
    what stands before the loop at `start` ends in a closing brace. -/
def endsDo (code : List Char) (start : Nat) (b : UInt8) : Except Fault Bool :=
  if b == 0x3B then do
    let before ← textBefore code start
    return (Text.trimEnd before).getLast? == some '\x7d'
  else .ok false

/-- The offset at which a loop ends. -/
def loopEnd (code : List Char) (head : LoopHead) : Except Fault (Option Nat) := do
  let bytes := encode code
  let found ← textBetween code head.start (head.bracket + 1)
  let bracket ← minus (head.start + size found) 1
  if "do".toList.isPrefixOf found then matching bytes bracket 0x7B 0x7D
  else
    match ← matching bytes bracket 0x28 0x29 with
    | none => return none
    | some close =>
      match nextCode? bytes (close + 1) with
      | none => return none
      | some (body, b) =>
        if ← endsDo code head.start b then return none
        else if b == 0x7B then matching bytes body 0x7B 0x7D
        else
          let rest ← textFrom code body
          return (find? ';' rest).map (body + ·)

/-- The offset of a function's opening brace in a text of `total` bytes, after
    any qualifiers at the start of the rest of it. -/
def pastQualifiers (total : Nat) : Nat → List Char → Except Fault (Option Nat)
  | 0, _ => .error .endless
  | fuel + 1, rest =>
    if rest.head? == some '\x7b' then do
      let offset ← minus total (size rest)
      return some offset
    else
      match qualifiers.find? (·.isPrefixOf rest) with
      | none => .ok none
      | some word => do
        let rest ← textFrom rest (size word)
        pastQualifiers total fuel (Text.trimStart rest)

/-- The offset of the brace that opens a function's body after an offset. -/
def bodyStart (code : List Char) (start : Nat) : Except Fault (Option Nat) := do
  let rest ← textFrom code start
  pastQualifiers (size code) ((Text.trimStart rest).length + 1) (Text.trimStart rest)

/-- The offset of the brace that closes a function's body. -/
def functionEnd (code : List Char) (head : FunctionHead) : Except Fault (Option Nat) := do
  let bytes := encode code
  let found ← textBetween code head.start (head.bracket + 1)
  let bracket ← minus (head.start + size found) 1
  match ← matching bytes bracket 0x28 0x29 with
  | none => return none
  | some close =>
    match ← bodyStart code (close + 1) with
    | none => return none
    | some body => matching bytes body 0x7B 0x7D

/-- An anchor from an offset to an end, if there is one. -/
def anchorTo (starts : List Nat) (kind : Kind) (name : Option String) (start : Nat) :
    Option Nat → Except Fault (Option Anchor)
  | none => .ok none
  | some last => do return some ⟨kind, name, ← range starts start last⟩

/-- The anchor of a loop, if it has an end. -/
def loopAnchor (code : List Char) (starts : List Nat) (head : LoopHead) :
    Except Fault (Option Anchor) := do
  let last ← loopEnd code head
  anchorTo starts .loop none head.start last

/-- The anchor of a function, if it is one and has an end. -/
def functionAnchor (code : List Char) (starts : List Nat) (head : FunctionHead) :
    Except Fault (Option Anchor) :=
  if notFunctions.contains head.name then .ok none
  else do
    let last ← functionEnd code head
    anchorTo starts .function (some (String.ofList head.name)) head.start last

/-- The anchors of a source text. -/
def search (source : List UInt8) : Except Fault (List Anchor) := do
  let masked ← maskInPlace source (source.length + 1) .code 0 source
  let code := Text.Utf8.decodeLossy masked
  let starts := lineStarts (encode code)
  let loops ← (loopHeads 0 [] 0 code).filterMapM (loopAnchor code starts)
  let functions ← (functionHeads 0 true 0 code).filterMapM (functionAnchor code starts)
  return sorted (loops ++ functions)

/-! ## Steps that do not fail -/

section Steps

variable {α β : Type}

theorem ok_bind (a : α) (f : α → Except Fault β) : (Except.ok a >>= f) = f a := rfl

theorem minus_of_le {a b : Nat} (h : b ≤ a) : minus a b = .ok (a - b) := by
  rw [minus, if_pos h]

theorem element_of_getElem? {xs : List α} {i : Nat} {x : α} (h : xs[i]? = some x) :
    element xs i = .ok x := by
  rw [element, h]

theorem blank_append {n : Nat} {rest : List UInt8} (h : n ≤ rest.length) (front : List UInt8) :
    blank n (front ++ rest) front.length =
      .ok (front ++ (List.replicate n 0x20 ++ rest.drop n)) := by
  induction n generalizing front rest with
  | zero => rfl
  | succ n ih =>
    obtain ⟨b, rest, rfl⟩ := List.exists_cons_of_length_pos (Nat.zero_lt_of_lt h)
    have hmore := ih (Nat.le_of_succ_le_succ h) (front ++ [0x20])
    have hset : (front ++ b :: rest).set front.length 0x20 = (front ++ [0x20]) ++ rest := by
      rw [List.set_append_right _ _ (Nat.le_refl _), Nat.sub_self, List.set_cons_zero,
        List.append_assoc, List.singleton_append]
    rw [List.length_append, List.length_singleton] at hmore
    rw [blank, if_pos (by simp), hset, hmore, List.replicate_succ, List.drop_succ_cons,
      List.append_assoc]
    rfl

theorem textBefore_append (front back : List Char) :
    textBefore (front ++ back) (size front) = .ok front := by
  rw [textBefore, divide?_eq_some_iff.mpr ⟨rfl, rfl⟩]

theorem textFrom_append (front back : List Char) :
    textFrom (front ++ back) (size front) = .ok back := by
  rw [textFrom, divide?_eq_some_iff.mpr ⟨rfl, rfl⟩]

theorem filterMapM_of_ok {f : α → Except Fault (Option β)} {g : α → Option β} {xs : List α}
    (h : ∀ x ∈ xs, f x = .ok (g x)) : xs.filterMapM f = .ok (xs.filterMap g) := by
  induction xs with
  | nil => rfl
  | cons x rest ih =>
    have hrest := ih fun y hy => h y (List.mem_cons_of_mem x hy)
    rw [List.filterMapM_cons, h x List.mem_cons_self, ok_bind, List.filterMap_cons, hrest]
    cases g x with
    | none => rfl
    | some y => rfl

end Steps

/-- A cut inside a character fails. -/
example : textFrom ['é', 'a'] 1 = .error (.cut 1) ∧ textFrom ['é', 'a'] 2 = .ok ['a'] := by
  decide

/-! ## Masked bytes -/

/-- What a stride passes is there, and is shown as masking shows it. -/
theorem maskFrom_stride (region : Region) (b : UInt8) (rest : List UInt8) :
    let s := stride region b rest.head?
    0 < s.width ∧ s.width ≤ (b :: rest).length ∧
      maskFrom region (b :: rest) =
        s.shown (b :: rest) ++ maskFrom s.region ((b :: rest).drop s.width) := by
  cases region with
  | code =>
    cases rest with
    | nil => simp [stride, maskFrom, Stride.shown]
    | cons c rest =>
      by_cases hline : b = 0x2F ∧ c = 0x2F
      · simp [stride, maskFrom, Stride.shown, hline, List.replicate]
      · by_cases hblock : b = 0x2F ∧ c = 0x2A
        · simp [stride, maskFrom, Stride.shown, hblock, List.replicate]
        · simp [stride, maskFrom, Stride.shown, hline, hblock]
  | lineComment => by_cases hb : b = 0x0A <;> simp [stride, maskFrom, Stride.shown, hb]
  | blockComment =>
    cases rest with
    | nil => by_cases hb : b = 0x0A <;> simp [stride, maskFrom, Stride.shown, hb]
    | cons c rest =>
      by_cases hclose : b = 0x2A ∧ c = 0x2F
      · simp [stride, maskFrom, Stride.shown, hclose, List.replicate]
      · by_cases hb : b = 0x0A <;> simp [stride, maskFrom, Stride.shown, hclose, hb]
  | literal q =>
    cases rest with
    | nil => by_cases hend : b = q ∨ b = 0x0A <;> simp [stride, maskFrom, Stride.shown, hend]
    | cons c rest =>
      by_cases hescape : b = 0x5C ∧ c ≠ 0x0A
      · simp [stride, maskFrom, Stride.shown, hescape, List.replicate]
      · by_cases hend : b = q ∨ b = 0x0A <;>
          simp [stride, maskFrom, Stride.shown, hescape, hend]

section Write

variable {s : Stride} {rest : List UInt8}

theorem Stride.length_shown (h : s.width ≤ rest.length) : (s.shown rest).length = s.width := by
  rw [Stride.shown]
  split
  · exact List.length_replicate
  · exact List.length_take_of_le h

theorem Stride.write_append (h : s.width ≤ rest.length) (front : List UInt8) :
    s.write (front ++ rest) front.length = .ok (front ++ (s.shown rest ++ rest.drop s.width)) := by
  rw [Stride.write, Stride.shown]
  split
  · exact blank_append h front
  · rw [List.take_append_drop]

end Write

/-- Masking in place never leaves the source: the bytes up to the index are
    masked already, the others are still those of the source. -/
theorem maskInPlace_eq {fuel : Nat} {rest : List UInt8} (hfuel : rest.length < fuel)
    (region : Region) {passed front : List UInt8} (hlength : passed.length = front.length) :
    maskInPlace (passed ++ rest) fuel region front.length (front ++ rest) =
      .ok (front ++ maskFrom region rest) := by
  induction fuel generalizing rest region passed front with
  | zero => omega
  | succ fuel ih =>
    rw [maskInPlace]
    cases rest with
    | nil => rw [if_neg (by simp [hlength]), maskFrom]
    | cons b rest =>
      have hb : (passed ++ b :: rest)[front.length]? = some b := by simp [← hlength]
      have hnext : (passed ++ b :: rest)[front.length + 1]? = rest.head? := by
        rw [← hlength, List.getElem?_append_right (by omega), Nat.add_sub_cancel_left,
          List.getElem?_cons_succ, List.head?_eq_getElem?]
      obtain ⟨hpos, hle, hmask⟩ := maskFrom_stride region b rest
      rw [if_pos (by simp [hlength]), element_of_getElem? hb, ok_bind, hnext, hmask]
      generalize stride region b rest.head? = s at *
      dsimp only
      -- the invariant behind the stride, with what it passes on both sides
      have hsource : passed ++ b :: rest =
          (passed ++ (b :: rest).take s.width) ++ (b :: rest).drop s.width := by
        rw [List.append_assoc, List.take_append_drop]
      have hindex : front.length + s.width = (front ++ s.shown (b :: rest)).length := by
        rw [List.length_append, Stride.length_shown hle]
      rw [Stride.write_append hle, ok_bind, hsource, hindex, ← List.append_assoc, ih,
        List.append_assoc]
      · rw [List.length_drop]
        omega
      · rw [← hindex, List.length_append, hlength, List.length_take_of_le hle]

/-! ## Brackets -/

/-- While a bracket is open, the depth can go down. -/
theorem closing_eq (left right : UInt8) {depth : Nat} (hdepth : 0 < depth) (index : Nat)
    (bytes : List UInt8) :
    closing left right depth index bytes =
      .ok ((closingFrom left right depth bytes).map (index + ·)) := by
  induction bytes generalizing depth index with
  | nil => rfl
  | cons b rest ih =>
    -- an answer that counts from the next byte, counted from this one
    have hnext : ∀ {d : Nat}, 0 < d → closing left right d (index + 1) rest =
        .ok (((closingFrom left right d rest).map (· + 1)).map (index + ·)) := by
      intro d hd
      rw [ih hd, Option.map_map]
      congr 2
      funext k
      simp only [Function.comp_apply]
      omega
    rw [closing, closingFrom]
    split
    · exact hnext (by omega)
    · split
      · rw [minus_of_le hdepth, ok_bind]
        by_cases hlast : depth = 1
        · subst hlast
          rfl
        · rw [if_neg (by simp only [beq_iff_eq]; omega), if_neg (by simpa using hlast)]
          exact hnext (by omega)
      · exact hnext hdepth

theorem matching_eq (bytes : List UInt8) (start : Nat) (left right : UInt8) :
    matching bytes start left right = .ok (matching? bytes start left right) := by
  rw [matching]
  split
  · rename_i hleft
    -- the walk starts with the bracket that is to be closed
    have hstart : bytes[start]? = some left := beq_iff_eq.mp hleft
    obtain ⟨hlt, hget⟩ := List.getElem?_eq_some_iff.mp hstart
    rw [List.drop_eq_getElem_cons hlt, hget, closing, if_pos BEq.rfl,
      closing_eq left right Nat.one_pos, matching?_of_left hstart]
  · rename_i hleft
    rw [matching?, if_neg hleft]

/-! ## Positions -/

/-- The first line starts at the start, so every offset has a line that starts
    at or before it. -/
theorem position_eq (bytes : List UInt8) (offset : Nat) :
    position (lineStarts bytes) offset = .ok (positionOf (lineStarts bytes) offset) := by
  rw [position, positionOf]
  generalize hbefore : (lineStarts bytes).takeWhile (· ≤ offset) = before
  have hne : before ≠ [] := by
    rw [← hbefore, lineStarts, List.takeWhile_cons_of_pos (by simp)]
    exact List.cons_ne_nil _ _
  have hprefix : before <+: lineStarts bytes := hbefore ▸ List.takeWhile_prefix _
  have hindex : before.length - 1 < before.length := by
    have := List.length_pos_iff.mpr hne
    omega
  have hlast : before.getLast? = some (before.getLast hne) := List.getLast?_eq_some_getLast hne
  have hget : (lineStarts bytes)[before.length - 1]? = some (before.getLast hne) := by
    obtain ⟨more, hmore⟩ := hprefix
    rw [← hmore, List.getElem?_append_left hindex, ← List.getLast?_eq_getElem?, hlast]
  have hle : before.getLast hne ≤ offset := by
    have hmem : before.getLast hne ∈ (lineStarts bytes).takeWhile (· ≤ offset) := by
      rw [hbefore]
      exact List.getLast_mem hne
    simpa using List.all_eq_true.mp List.all_takeWhile _ hmem
  rw [element_of_getElem? hget, ok_bind, minus_of_le hle, ok_bind, hlast]
  rfl

theorem anchorTo_eq (bytes : List UInt8) (kind : Kind) (name : Option String) (start : Nat)
    (last : Option Nat) :
    anchorTo (lineStarts bytes) kind name start last =
      .ok (last.map fun last => ⟨kind, name, rangeOf (lineStarts bytes) start last⟩) := by
  cases last with
  | none => rfl
  | some last =>
    rw [anchorTo, range, position_eq, position_eq]
    rfl

/-! ## Ends of loops -/

section Heads

variable {code before text : List Char} {start bracket : Nat}

/-- The text of a head with its bracket can be cut out, and the bracket is the
    last byte of it. -/
theorem exists_found (h : Stands code before text start bracket) :
    ∃ c, textBetween code start (bracket + 1) = .ok (text ++ [c]) ∧
      minus (start + size (text ++ [c])) 1 = .ok bracket := by
  obtain ⟨s, rfl, hleads⟩ := h.leads
  obtain ⟨c, rest, hc, rfl⟩ := hleads.bracket
  have hsize : size (text ++ [c]) = size text + 1 := by rw [Text.Utf8.size_concat, hc]
  have hend : bracket + 1 = size (before ++ (text ++ [c])) := by
    rw [h.bracket_eq, Text.Utf8.size_append, hsize]
    omega
  have hsplit : before ++ (text ++ c :: rest) = (before ++ (text ++ [c])) ++ rest := by simp
  refine ⟨c, ?_, ?_⟩
  · rw [textBetween, hend, hsplit, textBefore_append, ok_bind, h.start_eq, textFrom_append]
  · rw [hsize, h.start_eq, minus_of_le (by omega), h.bracket_eq]
    rfl

theorem getLast?_trimEnd (s : List Char) :
    ((Text.trimEnd s).getLast? == some '\x7d') = endsInBrace s.reverse := by
  rw [Text.trimEnd, List.getLast?_reverse, endsInBrace]

theorem endsDo_eq (h : Stands code before text start bracket) (b : UInt8) :
    endsDo code start b = .ok (b == 0x3B && endsInBrace before.reverse) := by
  obtain ⟨s, rfl, -⟩ := h.leads
  rw [endsDo, h.start_eq]
  split
  · rename_i hb
    rw [textBefore_append, ok_bind, getLast?_trimEnd, hb, Bool.true_and]
    rfl
  · rename_i hb
    rw [Bool.eq_false_iff.mpr hb, Bool.false_and]

end Heads

/-- In a text, a search for bytes that belong to whole characters skips whole
    characters. -/
theorem findByte?_encode {p : UInt8 → Bool} (hp : Text.Utf8.IsWhole (!p ·))
    (front back : List Char) :
    (findByte? (encode (front ++ back)) (size front) p).map (·.1) =
      if back.all (fun c => (encodeChar c).all (!p ·)) then none
      else some (size front + size (back.takeWhile fun c => (encodeChar c).all (!p ·))) := by
  rw [findByte?, Text.Utf8.drop_encode, Text.Utf8.takeWhile_encode hp]
  generalize hskips : (fun c => (encodeChar c).all (!p ·)) = skips
  have hdrop : (encode back).drop (encode (back.takeWhile skips)).length =
      encode (back.dropWhile skips) := by
    conv => lhs; arg 2; rw [← List.takeWhile_append_dropWhile (p := skips) (l := back)]
    rw [Text.Utf8.length_encode, Text.Utf8.drop_encode]
  rw [hdrop, Text.Utf8.length_encode]
  by_cases hall : back.all skips = true
  · rw [if_pos hall, List.dropWhile_eq_nil_iff.mpr (List.all_eq_true.mp hall)]
    rfl
  · have hne : back.dropWhile skips ≠ [] :=
      fun hnil => hall (List.all_eq_true.mpr (List.dropWhile_eq_nil_iff.mp hnil))
    obtain ⟨c, rest, hrest⟩ := List.exists_cons_of_ne_nil hne
    obtain ⟨b, tail, hc⟩ := List.exists_cons_of_ne_nil (Text.Utf8.encodeChar_ne_nil c)
    rw [if_neg hall, hrest, Text.Utf8.encode_cons, hc]
    rfl

/-- The next byte of code stands between two characters if the search for it
    starts there: the blanks before it are characters of their own. -/
theorem exists_split_of_nextCode? {front back : List Char} {body : Nat} {b : UInt8}
    (h : nextCode? (encode (front ++ back)) (size front) = some (body, b)) :
    ∃ front' back', front ++ back = front' ++ back' ∧ size front' = body := by
  have hwhole : Text.Utf8.IsWhole (!!Text.isAsciiBlank ·) := by
    refine Text.Utf8.isWhole_of_le (v := false) fun x hx => ?_
    have hne : ∀ y : UInt8, y.toNat < 0x80 → (x == y) = false := by
      intro y hy
      rw [beq_eq_false_iff_ne]
      rintro rfl
      omega
    simp [Text.isAsciiBlank, hne]
  have hfound := findByte?_encode hwhole front back
  rw [← nextCode?, h, Option.map_some] at hfound
  generalize (fun c => (encodeChar c).all (!!Text.isAsciiBlank ·)) = skips at hfound
  split at hfound
  · cases hfound
  · refine ⟨front ++ back.takeWhile skips, back.dropWhile skips, ?_, ?_⟩
    · rw [List.append_assoc, List.takeWhile_append_dropWhile]
    · rw [Text.Utf8.size_append]
      exact (Option.some_inj.mp hfound).symm

/-- No other character has the byte of a semicolon. -/
theorem find?_semicolon (front back : List Char) :
    (findByte? (encode (front ++ back)) (size front) (· == 0x3B)).map (·.1) =
      (find? ';' back).map (size front + ·) := by
  have hskips : (fun c => (encodeChar c).all (!(· == (0x3B : UInt8)) ·)) = (· != ';') := by
    funext c
    by_cases hsemicolon : c = ';'
    · rw [hsemicolon]
      decide
    · rw [bne_iff_ne.mpr hsemicolon, List.all_eq_true]
      intro b hb
      rw [Bool.not_eq_true', beq_eq_false_iff_ne]
      rintro rfl
      rcases Text.Utf8.encodeChar_cases c with ⟨a, -, hc, hchar⟩ | hlong
      · rw [hc, List.mem_singleton] at hb
        rw [← hb] at hchar
        exact hsemicolon hchar
      · exact absurd (hlong _ hb) (by decide)
  have hwhole : Text.Utf8.IsWhole (!(· == (0x3B : UInt8)) ·) := by
    refine Text.Utf8.isWhole_of_le (v := true) fun x hx => ?_
    rw [Bool.not_eq_true', beq_eq_false_iff_ne]
    rintro rfl
    exact absurd hx (by decide)
  rw [findByte?_encode hwhole, hskips, find?]
  split <;> rfl

theorem loopEnd_eq {code before text : List Char} {head : LoopHead}
    (h : Stands code before text head.start head.bracket)
    (hdo : ∀ rest, "do".toList.isPrefixOf (text ++ rest) = head.isDo)
    (hafter : head.afterBrace = endsInBrace before.reverse) :
    loopEnd code head = .ok (loopEnd? (encode code) head) := by
  obtain ⟨c, hfound, hbracket⟩ := exists_found h
  rw [loopEnd, loopEnd?, hfound, ok_bind, hbracket, ok_bind, hdo]
  split
  · exact matching_eq _ _ _ _
  · rw [matching_eq, ok_bind]
    cases hclose : matching? (encode code) head.bracket 0x28 0x29 with
    | none => rfl
    | some close =>
      obtain ⟨-, -, hparen⟩ := matching?_eq_some (by decide) hclose
      obtain ⟨front, back, hcode, hfront⟩ := Text.Utf8.exists_split_behind hparen (by decide)
      dsimp only
      cases hnext : nextCode? (encode code) (close + 1) with
      | none => rfl
      | some found =>
        obtain ⟨body, b⟩ := found
        dsimp only
        rw [endsDo_eq h, ok_bind, ← hafter]
        split
        · rfl
        · split
          · exact matching_eq _ _ _ _
          · -- the body starts between two characters, and ends with its semicolon
            rw [hcode, ← hfront] at hnext
            obtain ⟨front', back', hsplit, hbody⟩ := exists_split_of_nextCode? hnext
            rw [hcode, hsplit, ← hbody, textFrom_append, ok_bind, find?_semicolon]
            rfl

/-! ## Ends of functions -/

theorem qualifiers_ne_nil {word : List Char} (h : word ∈ qualifiers) : word ≠ [] := by
  revert word
  decide

/-- Each qualifier makes the rest shorter, so the loop ends. -/
theorem pastQualifiers_eq {total fuel : Nat} {rest : List Char} (hfuel : rest.length < fuel)
    (hsize : size rest ≤ total) :
    pastQualifiers total fuel rest =
      .ok ((skipQualifiers fuel rest).map fun s => total - size s) := by
  induction fuel generalizing rest with
  | zero => omega
  | succ fuel ih =>
    rw [pastQualifiers, skipQualifiers]
    split
    · rw [minus_of_le hsize, ok_bind]
      rfl
    · cases hword : qualifiers.find? (·.isPrefixOf rest) with
      | none => rfl
      | some word =>
        have hne := qualifiers_ne_nil (List.mem_of_find?_eq_some hword)
        have hprefix := List.find?_some hword
        obtain ⟨tail, rfl⟩ := List.isPrefixOf_iff_prefix.mp hprefix
        have hpos := List.length_pos_iff.mpr hne
        obtain ⟨blanks, hblanks⟩ := List.dropWhile_suffix Text.isBlank (l := tail)
        have hlength := congrArg List.length hblanks
        have htail := congrArg size hblanks
        rw [List.length_append] at hlength hfuel
        rw [Text.Utf8.size_append] at htail hsize
        dsimp only
        rw [textFrom_append, ok_bind, List.drop_left, Text.trimStart]
        exact ih (by omega) (by omega)

theorem bodyStart_eq (front back : List Char) :
    bodyStart (front ++ back) (size front) =
      .ok (bodyStart? (encode (front ++ back)) (size front)) := by
  obtain ⟨blanks, hblanks⟩ := List.dropWhile_suffix Text.isBlank (l := back)
  have hback := congrArg size hblanks
  rw [Text.Utf8.size_append] at hback
  rw [bodyStart, textFrom_append, ok_bind, bodyStart?, Text.Utf8.drop_encode,
    Text.Utf8.decodeLossy_encode, Text.Utf8.length_encode]
  refine pastQualifiers_eq (Nat.lt_succ_self _) ?_
  rw [Text.Utf8.size_append, Text.trimStart]
  omega

theorem functionEnd_eq {code before text : List Char} {head : FunctionHead}
    (h : Stands code before text head.start head.bracket) :
    functionEnd code head = .ok (functionEnd? (encode code) head) := by
  obtain ⟨c, hfound, hbracket⟩ := exists_found h
  rw [functionEnd, functionEnd?, hfound, ok_bind, hbracket, ok_bind, matching_eq, ok_bind]
  cases hclose : matching? (encode code) head.bracket 0x28 0x29 with
  | none => rfl
  | some close =>
    obtain ⟨-, -, hparen⟩ := matching?_eq_some (by decide) hclose
    obtain ⟨front, back, rfl, hfront⟩ := Text.Utf8.exists_split_behind hparen (by decide)
    dsimp only
    rw [← hfront, bodyStart_eq, ok_bind]
    cases bodyStart? (encode (front ++ back)) (size front) with
    | none => rfl
    | some body => exact matching_eq _ _ _ _

/-! ## Anchors -/

section Anchors

variable {code : List Char}

/-- The heads of loops are looked for from the start of the text on. -/
theorem loopAnchor_eq {head : LoopHead} (h : head ∈ loopHeads 0 [] 0 code) :
    loopAnchor code (lineStarts (encode code)) head =
      .ok ((loopEnd? (encode code) head).map fun last =>
        ⟨.loop, none, rangeOf (lineStarts (encode code)) head.start last⟩) := by
  have hmem : head ∈ loopHeads 0 [].reverse (size []) code := h
  obtain ⟨before, text, hstands, hdo, hafter⟩ := stands_of_mem_loopHeads hmem
  rw [List.nil_append] at hstands
  rw [loopAnchor, loopEnd_eq hstands hdo hafter, ok_bind, anchorTo_eq]

theorem functionAnchor_eq {head : FunctionHead} (h : head ∈ functionHeads 0 true 0 code) :
    functionAnchor code (lineStarts (encode code)) head =
      .ok (if notFunctions.contains head.name then none
        else (functionEnd? (encode code) head).map fun last =>
          ⟨.function, some (String.ofList head.name),
            rangeOf (lineStarts (encode code)) head.start last⟩) := by
  have hmem : head ∈ functionHeads 0 true (size []) code := h
  obtain ⟨before, text, hstands⟩ := stands_of_mem_functionHeads hmem
  rw [List.nil_append] at hstands
  rw [functionAnchor]
  split
  · rfl
  · rw [functionEnd_eq hstands, ok_bind, anchorTo_eq]

end Anchors

/-- The guarded search finds the anchors of every text: it cuts the text
    between characters only, never counts below zero, stays within the starts
    of the lines, and comes to an end. -/
theorem guarded_search_eq (s : List Char) :
    search (encode s) = .ok (ofSource (encode s)) := by
  have hmask : maskInPlace (encode s) ((encode s).length + 1) .code 0 (encode s) =
      .ok (mask (encode s)) :=
    @maskInPlace_eq _ _ (Nat.lt_succ_self _) .code [] [] rfl
  rw [search, hmask, ok_bind, ← maskText, ofSource]
  dsimp only
  rw [filterMapM_of_ok fun head => loopAnchor_eq, ok_bind,
    filterMapM_of_ok fun head => functionAnchor_eq, ok_bind]
  rfl

end Guarded

end CompilerRemarks.Anchor
