/-
  CompilerRemarks.Proofs.Remark.Lines

  The lines of a byte stream (`streamLines`) are said without any reader: split
  at line feeds, drop a carriage return right before one, count a last line
  that is not empty, read each as UTF-8 and stop at the first that is not.

  A reader that is handed the stream in parts gives these lines, however the
  stream is cut (`takeAll_parts`). Its state after some bytes is computed from
  the bytes alone (`having`), and one more part takes the state of the bytes
  before to the state of the bytes with it (`take_having`).
-/
import CompilerRemarks.Proofs.Text.Cut
import CompilerRemarks.Proofs.Text.Utf8
import CompilerRemarks.Remark.Reader

namespace CompilerRemarks.Remark

/-! ## The lines of a stream -/

/-- A line without a carriage return at its end. -/
def dropReturn (line : List UInt8) : List UInt8 :=
  if line.getLast? = some 13 then line.dropLast else line

/-- The lines of a byte stream, as bytes. -/
def byteLines (bytes : List UInt8) : List (List UInt8) :=
  let pieces := bytes.splitOn 10
  let last := pieces.getLastD []
  pieces.dropLast.map dropReturn ++ if last = [] then [] else [last]

/-- The lines of a byte stream up to the first that is not UTF-8. -/
def streamLines (bytes : List UInt8) : List String :=
  let texts := (byteLines bytes).map fun line => String.fromUTF8? line.toByteArray
  (texts.takeWhile Option.isSome).filterMap id

/-! ## Raw lines -/

/-- The lines of a byte stream with their ends. -/
def rawLines (bytes : List UInt8) : List (List UInt8) :=
  let last := Text.leftover lineFeed bytes
  Text.cut lineFeed bytes ++ if last = [] then [] else [last]

theorem stripEnd_append_lineFeed (body : List UInt8) :
    stripEnd (body ++ [lineFeed]) = dropReturn body := by
  rcases List.eq_nil_or_concat body with rfl | ⟨start, b, rfl⟩
  · rfl
  · rw [List.concat_eq_append, stripEnd, List.reverse_append, List.reverse_append, dropReturn,
      List.getLast?_concat]
    by_cases hb : b = 13
    · subst hb
      simp [lineFeed]
    · simp [lineFeed, hb]

theorem stripEnd_of_not_mem {raw : List UInt8} (h : lineFeed ∉ raw) : stripEnd raw = raw := by
  unfold stripEnd
  split
  · rename_i rest hraw
    refine absurd ?_ h
    rw [← List.mem_reverse, hraw]
    exact List.mem_cons_self
  · rename_i rest _ hraw
    refine absurd ?_ h
    rw [← List.mem_reverse, hraw]
    exact List.mem_cons_self
  · rfl

/-- The raw lines without their ends are the lines. -/
theorem map_stripEnd_rawLines (bytes : List UInt8) :
    (rawLines bytes).map stripEnd = byteLines bytes := by
  have hlast : (bytes.splitOn 10).getLastD [] = Text.leftover lineFeed bytes := by
    rw [List.getLastD_eq_getLast?, List.getLast?_eq_some_getLast (List.splitOn_ne_nil 10 bytes)]
    rfl
  have hstrip : stripEnd ∘ (· ++ [lineFeed]) = dropReturn :=
    funext fun body => stripEnd_append_lineFeed body
  rw [rawLines, byteLines, hlast, List.map_append, Text.cut, List.map_map, hstrip]
  congr 1
  split
  · rfl
  · rw [List.map_singleton, stripEnd_of_not_mem (Text.notMem_leftover bytes)]

theorem lineText?_eq_fromUTF8? (raw : List UInt8) :
    lineText? raw = String.fromUTF8? (stripEnd raw).toByteArray :=
  Text.Utf8.map_ofList_decode? (stripEnd raw)

theorem textLines_eq_filterMap (raws : List (List UInt8)) :
    textLines raws = ((raws.map lineText?).takeWhile Option.isSome).filterMap id := by
  induction raws with
  | nil => rfl
  | cons raw rest ih =>
    rw [textLines, List.map_cons]
    cases hline : lineText? raw with
    | none => rfl
    | some line => simp [ih]

theorem streamLines_eq_textLines (bytes : List UInt8) :
    streamLines bytes = textLines (rawLines bytes) := by
  have htexts : (byteLines bytes).map (fun line => String.fromUTF8? line.toByteArray) =
      (rawLines bytes).map lineText? := by
    rw [← map_stripEnd_rawLines, List.map_map]
    exact List.map_congr_left fun raw _ => (lineText?_eq_fromUTF8? raw).symm
  rw [streamLines, htexts, textLines_eq_filterMap]

/-! ## Line by line -/

theorem rawLines_of_not_mem {bytes : List UInt8} (h : lineFeed ∉ bytes) :
    rawLines bytes = if bytes = [] then [] else [bytes] := by
  rw [rawLines, Text.cut_of_not_mem h, Text.leftover_of_not_mem h, List.nil_append]

theorem rawLines_cons {body : List UInt8} (h : lineFeed ∉ body) (rest : List UInt8) :
    rawLines (body ++ lineFeed :: rest) = (body ++ [lineFeed]) :: rawLines rest := by
  rw [rawLines, Text.cut_cons h, Text.leftover_append_cons, List.cons_append]
  rfl

theorem streamLines_cons {body : List UInt8} (h : lineFeed ∉ body) (rest : List UInt8) :
    streamLines (body ++ lineFeed :: rest) =
      match lineText? (body ++ [lineFeed]) with
      | some line => line :: streamLines rest
      | none => [] := by
  rewrite [streamLines_eq_textLines, rawLines_cons h, textLines, ← streamLines_eq_textLines]
  rfl

theorem streamLines_of_not_mem {bytes : List UInt8} (h : lineFeed ∉ bytes) (hne : bytes ≠ []) :
    streamLines bytes = (lineText? bytes).toList := by
  rw [streamLines_eq_textLines, rawLines_of_not_mem h, if_neg hne, textLines]
  cases lineText? bytes <;> rfl

theorem streamLines_nil : streamLines [] = [] := by
  rw [streamLines_eq_textLines, rawLines_of_not_mem List.not_mem_nil, if_pos rfl]
  rfl

/-! ## Lines that arrive in parts -/

namespace LineReader

/-- Takes the parts of a stream one after the other. -/
def takeAll (r : LineReader) : List Part → List String × LineReader
  | [] => ([], r)
  | part :: rest =>
    let next := r.take part
    let more := next.2.takeAll rest
    (next.1 ++ more.1, more.2)

theorem takeAll_append (r : LineReader) (parts more : List Part) :
    r.takeAll (parts ++ more) =
      ((r.takeAll parts).1 ++ ((r.takeAll parts).2.takeAll more).1,
        ((r.takeAll parts).2.takeAll more).2) := by
  induction parts generalizing r with
  | nil => rfl
  | cons part rest ih =>
    rw [List.cons_append, takeAll, takeAll, ih, List.append_assoc]

theorem takeAll_singleton (r : LineReader) (part : Part) : r.takeAll [part] = r.take part := by
  rw [takeAll, takeAll, List.append_nil]

theorem take_of_closed {r : LineReader} (h : r.isOpen = false) (part : Part) :
    r.take part = ([], closed) := by
  simp only [take, h, Bool.not_false, if_true]

/-- A reader that is closed gives no line any more. -/
theorem takeAll_of_closed {r : LineReader} (h : r.isOpen = false) (parts : List Part) :
    (r.takeAll parts).1 = [] ∧ (r.takeAll parts).2.isOpen = false := by
  induction parts generalizing r with
  | nil => exact ⟨rfl, h⟩
  | cons part rest ih =>
    rw [takeAll, take_of_closed h]
    exact ih rfl

theorem textLines_append (raws more : List (List UInt8)) :
    textLines (raws ++ more) =
      textLines raws ++ if raws.all (lineText? · |>.isSome) then textLines more else [] := by
  induction raws with
  | nil => rfl
  | cons raw rest ih =>
    rw [List.cons_append, textLines, textLines, List.all_cons]
    cases hline : lineText? raw with
    | none => rfl
    | some line => simp [ih]

/-- The lines of a reader that was handed some bytes, and the reader. -/
def having (bytes : List UInt8) : List String × LineReader :=
  read (Text.cut lineFeed bytes) (Text.leftover lineFeed bytes)

theorem new_eq_having : (([], new) : List String × LineReader) = having [] := by
  rw [having, Text.cut_of_not_mem List.not_mem_nil, Text.leftover_of_not_mem List.not_mem_nil]
  rfl

/-- A part takes the state of the bytes before it to the state of the bytes
    with it. -/
theorem take_having (bytes more : List UInt8) :
    having (bytes ++ more) =
      ((having bytes).1 ++ ((having bytes).2.take (.bytes more)).1,
        ((having bytes).2.take (.bytes more)).2) := by
  have hcut : Text.cut lineFeed (bytes ++ more) = _ := Text.cut_append bytes more
  have hleft : Text.leftover lineFeed (bytes ++ more) = _ := Text.leftover_append bytes more
  cases hall : (Text.cut lineFeed bytes).all (lineText? · |>.isSome) with
  | true =>
    -- the reader goes on with the line that was left unfinished
    simp only [having, read, hcut, hleft, hall, textLines_append, List.all_append, take,
      Bool.true_and, if_true, Bool.not_true, Bool.false_eq_true, if_false]
  | false =>
    -- a line before was not text: nothing changes any more
    simp only [having, read, hcut, hall, textLines_append, List.all_append, take, closed,
      Bool.false_and, Bool.false_eq_true, if_false, Bool.not_false, if_true]

/-- The end of the stream brings the line that was left unfinished. -/
theorem take_ending_having (bytes : List UInt8) :
    (having bytes).1 ++ ((having bytes).2.take .ending).1 = streamLines bytes ∧
      ((having bytes).2.take .ending).2 = closed := by
  rw [streamLines_eq_textLines, rawLines, textLines_append]
  cases hall : (Text.cut lineFeed bytes).all (lineText? · |>.isSome) with
  | true =>
    simp only [having, read, hall, take, if_true, Bool.not_true, Bool.false_eq_true, if_false,
      and_true, List.isEmpty_iff]
    split <;> rfl
  | false =>
    simp only [having, read, hall, take, closed, Bool.false_eq_true, if_false, Bool.not_false,
      if_true, and_true]

theorem takeAll_bytes (chunks : List (List UInt8)) (bytes : List UInt8) :
    having (bytes ++ chunks.flatten) =
      ((having bytes).1 ++ ((having bytes).2.takeAll (chunks.map .bytes)).1,
        ((having bytes).2.takeAll (chunks.map .bytes)).2) := by
  induction chunks generalizing bytes with
  | nil => simp [takeAll]
  | cons chunk rest ih =>
    rw [List.flatten_cons, ← List.append_assoc, ih, take_having, List.map_cons, takeAll,
      List.append_assoc]

/-- A stream that arrives in parts up to its end is read as if it came at
    once. -/
theorem takeAll_parts (chunks : List (List UInt8)) :
    new.takeAll (chunks.map .bytes ++ [.ending]) = (streamLines chunks.flatten, closed) := by
  have hbytes := takeAll_bytes chunks []
  rw [List.nil_append, ← new_eq_having, List.nil_append] at hbytes
  obtain ⟨hlines, hreader⟩ := take_ending_having chunks.flatten
  rw [hbytes] at hlines hreader
  rw [takeAll_append, takeAll_singleton, hlines, hreader]

end LineReader

end CompilerRemarks.Remark
