/-
  CompilerRemarks.Remark.Reader

  Reading a record from bytes that arrive in chunks. Lines end at a line
  feed, and a carriage return right before it is dropped; a line that is not
  UTF-8 ends the stream. A cancellation is noticed before each line and
  whenever the reader has to wait: a line that is put together without
  waiting when it comes is still delivered.
-/
import CompilerRemarks.Remark.Stream
import CompilerRemarks.Text.Cut
import CompilerRemarks.Text.Utf8

namespace CompilerRemarks.Remark

/-! ## Lines of bytes -/

/-- What ends a line. -/
def lineFeed : UInt8 := 10

/-- A line without its end. -/
def stripEnd (raw : List UInt8) : List UInt8 :=
  match raw.reverse with
  | 10 :: 13 :: rest => rest.reverse
  | 10 :: rest => rest.reverse
  | _ => raw

/-- The text of a raw line, if it is UTF-8. -/
def lineText? (raw : List UInt8) : Option String :=
  (Text.Utf8.decode? (stripEnd raw)).map String.ofList

/-- The texts of raw lines up to the first that is not UTF-8. -/
def textLines : List (List UInt8) → List String
  | [] => []
  | raw :: rest =>
    match lineText? raw with
    | some line => line :: textLines rest
    | none => []

/-! ## Lines that arrive in parts -/

/-- What arrives of a stream. -/
inductive Part where
  | bytes (bytes : List UInt8)
  /-- The end of the stream. -/
  | ending
  deriving DecidableEq, Repr

/-- A reader of lines that is handed the parts of a stream. -/
structure LineReader where
  /-- The start of the line being read. -/
  pending : List UInt8
  /-- Whether lines may still come: none does after one that is not UTF-8. -/
  isOpen : Bool
  deriving DecidableEq, Repr

namespace LineReader

/-- A reader that was handed nothing. -/
def new : LineReader := ⟨[], true⟩

/-- A reader that takes nothing more. -/
def closed : LineReader := ⟨[], false⟩

/-- Reads raw lines, after which `rest` is the start of the next. -/
def read (raws : List (List UInt8)) (rest : List UInt8) : List String × LineReader :=
  (textLines raws, if raws.all (lineText? · |>.isSome) then ⟨rest, true⟩ else closed)

/-- Takes a part of the stream: the lines that it completes, and the reader
    after it. -/
def take (r : LineReader) (part : Part) : List String × LineReader :=
  if !r.isOpen then ([], closed)
  else
    match part with
    | .bytes bytes =>
      let bytes := r.pending ++ bytes
      read (Text.cut lineFeed bytes) (Text.leftover lineFeed bytes)
    | .ending => (if r.pending.isEmpty then [] else textLines [r.pending], closed)

end LineReader

/-! ## Chunks -/

/-- When a cancellation comes. A moment of reading is told by how many lines
    were read before and how many chunks, empty ones included, were asked
    for. -/
structure Trip where
  /-- Whether it has come when the next line is about to be read. -/
  atLook : (lines asked : Nat) → Bool
  /-- Whether the reader has to wait for data, and it comes before the data. -/
  atWait : (lines asked : Nat) → Bool

namespace Trip

/-- No cancellation. -/
def never : Trip := ⟨fun _ _ => false, fun _ _ => false⟩

/-- Before anything is read. -/
def atStart : Trip := ⟨fun _ _ => true, fun _ _ => true⟩

/-- When the first chunk with this number or a later one is asked for. -/
def atChunk (n : Nat) : Trip := ⟨fun _ asked => n < asked, fun _ _ => false⟩

/-- While the line with this number is put together. -/
def inLine (n : Nat) : Trip := ⟨fun lines _ => n < lines, fun _ _ => false⟩

end Trip

/-- The bytes up to and with the first line feed, and the rest. -/
def splitLine? : List UInt8 → Option (List UInt8 × List UInt8)
  | [] => none
  | b :: rest =>
    if b == lineFeed then some ([lineFeed], rest)
    else (splitLine? rest).map fun (line, rest) => (b :: line, rest)

/-- A reader over numbered chunks. -/
structure ChunkReader where
  /-- What is left of the chunk being read. -/
  buffer : List UInt8
  /-- The chunks to come, with their numbers. -/
  chunks : List (List UInt8 × Nat)
  /-- How many chunks were asked for. -/
  asked : Nat
  deriving Repr

/-- Gathers a line over as many chunks as it takes; `acc` is its start. There
    is none if the cancellation comes while a chunk, or the end, is waited
    for. -/
def gather (trip : Trip) (lines : Nat) :
    List (List UInt8 × Nat) → List UInt8 → List UInt8 → Nat → Option (List UInt8 × ChunkReader)
  | [], acc, buffer, asked =>
    match splitLine? buffer with
    | some (line, rest) => some (acc ++ line, ⟨rest, [], asked⟩)
    | none =>
      if trip.atWait lines asked then none else some (acc ++ buffer, ⟨[], [], asked⟩)
  | (chunk, i) :: more, acc, buffer, asked =>
    match splitLine? buffer with
    | some (line, rest) => some (acc ++ line, ⟨rest, (chunk, i) :: more, asked⟩)
    | none =>
      if trip.atWait lines asked then none
      else gather trip lines more (acc ++ buffer) chunk (i + 1)

/-- How a read ended. -/
structure Outcome where
  remarks : List Remark
  cancelled : Bool
  deriving Repr

/-- Reads lines into a filter until the stream ends or a cancellation is
    noticed; `lines` were read before. -/
def drain (trip : Trip) : Nat → Nat → ChunkReader → Filter → Outcome
  | 0, _, _, f => ⟨f.remarks, false⟩
  | fuel + 1, lines, r, f =>
    if trip.atLook lines r.asked then ⟨f.remarks, true⟩
    else
      match gather trip lines r.chunks [] r.buffer r.asked with
      | none => ⟨f.remarks, true⟩
      | some ([], _) => ⟨f.remarks, false⟩
      | some (raw, r) =>
        match lineText? raw with
        | some line => drain trip fuel (lines + 1) r (f.push line).1
        | none => ⟨f.remarks, false⟩

/-- The remarks of a file in a byte stream given in chunks. Empty chunks
    count in the numbering but are never handed out. -/
def filterChunks (relevant : Path) (chunks : List (List UInt8)) (trip : Trip) : Outcome :=
  let numbered := chunks.zipIdx.filter (!·.1.isEmpty)
  let size := chunks.flatten.length
  drain trip (size + 1) 0 ⟨[], numbered, 0⟩ (Filter.new relevant)

end CompilerRemarks.Remark
