/-
  CompilerRemarks.Remark.Stream

  Filtering an optimization record for one file. A record holds remarks for
  every file that a translation unit pulls in; its lines are gathered into
  documents, and only those whose location line names the file are decoded.
-/
import CompilerRemarks.Remark.Document
import CompilerRemarks.Path.Basic

namespace CompilerRemarks.Remark

/-! ## The file of a location line -/

/-- A doubled quote stands for one. -/
def undouble : List Char → List Char
  | '\'' :: '\'' :: rest => '\'' :: undouble rest
  | c :: rest => c :: undouble rest
  | [] => []

/-- The text after an opening single quote up to the closing one. Quotes come
    in pairs inside; if no closing quote follows, the first quote of the last
    pair closes the text. `acc` is what was read, reversed, and `fallback`
    what stands before that pair. -/
def singleQuoted? : List Char → Option (List Char) → List Char → Option (List Char)
  | acc, _, '\'' :: '\'' :: rest => singleQuoted? ('\'' :: '\'' :: acc) (some acc.reverse) rest
  | acc, _, '\'' :: _ => some acc.reverse
  | acc, fallback, c :: rest => singleQuoted? (c :: acc) fallback rest
  | _, fallback, [] => fallback

/-- The text after an opening double quote up to the closing one. -/
def doubleQuoted? (s : List Char) : Option (List Char) :=
  if s.contains '"' then some (s.takeWhile (· ≠ '"')) else none

/-- An unquoted file ends at a comma or a brace. -/
def endsBare (c : Char) : Bool :=
  c == ',' || c == '\x7d'

/-- An unquoted file without the blanks around it. -/
def bareFile (s : List Char) : List Char :=
  Text.trim (s.takeWhile (!endsBare ·))

/-- The file written after the key: in single quotes, in double quotes, or
    bare. Blanks alone are a file without a name; nothing at all is no file. -/
def fileAfterKey? (s : List Char) : Option (List Char) :=
  let body := Text.trimStart s
  let blanks := body.length < s.length
  match body with
  | [] => if blanks then some [] else none
  | c :: rest =>
    if c == '\'' then
      some (((singleQuoted? [] none rest).map undouble).getD (bareFile body))
    else if c == '"' then some ((doubleQuoted? rest).getD (bareFile body))
    else if endsBare c then (if blanks then some [] else none)
    else some (bareFile body)

/-- What stands before a file on a location line. -/
def fileKey : List Char := "File:".toList

/-- The file of the first key that has one. -/
def findFile? : List Char → Option (List Char)
  | [] => none
  | c :: rest =>
    match (dropStart? fileKey (c :: rest)).bind fileAfterKey? with
    | some file => some file
    | none => findFile? rest

/-- The file that a location line names, if it is not empty. -/
def extractFile? (line : String) : Option String :=
  ((findFile? line.toList).filter (!·.isEmpty)).map String.ofList

/-! ## Relevance -/

/-- Compilers report a path as it was given, or a name alone: files are the
    same if their paths are, or if their names are. -/
def sameFile (p q : Path) : Bool :=
  p.same q || (p.fileName?.isSome && p.fileName? == q.fileName?)

/-- How a location line starts. -/
def locationMark : List Char := "DebugLoc:".toList

/-- Whether a line gives the location of its document. -/
def isLocationLine (line : String) : Bool :=
  locationMark.isPrefixOf line.toList

/-- Whether a location line names the file. -/
def namesFile (relevant : Path) (line : String) : Bool :=
  match extractFile? line with
  | some file => sameFile ⟨file⟩ relevant
  | none => false

/-! ## The filter -/

/-- A filter for the remarks of one file. -/
structure Filter where
  relevant : Path
  /-- The lines of the document being read. -/
  current : List String
  /-- Whether every location line so far names the file. -/
  isRelevant : Bool
  /-- Whether no location line was met yet. -/
  unplaced : Bool
  remarks : List Remark
  deriving Repr

namespace Filter

/-- A filter that has read nothing. -/
def new (relevant : Path) : Filter :=
  ⟨relevant, [], true, true, []⟩

/-- Notes a line of the current document. -/
def note (f : Filter) (line : String) : Filter :=
  let f := { f with current := f.current ++ [line] }
  if isLocationLine line then
    { f with unplaced := false, isRelevant := f.isRelevant && namesFile f.relevant line }
  else f

/-- Ends the current document: the remark it holds, if it is kept. -/
def close (f : Filter) : Filter × Option Remark :=
  let found := if f.isRelevant && !f.unplaced then decode? f.current else none
  (⟨f.relevant, [], true, true, f.remarks ++ found.toList⟩, found)

/-- Reads a line: the filter after it, and the remark that it completes. -/
def push (f : Filter) (line : String) : Filter × Option Remark :=
  let f := f.note line
  if line == terminator then f.close else (f, none)

/-- Reads lines one after the other. -/
def pushAll (f : Filter) (lines : List String) : Filter :=
  lines.foldl (fun f line => (f.push line).1) f

end Filter

/-- The remarks of a file in the lines of a record. A document without its
    end is dropped. -/
def filterLines (relevant : Path) (lines : List String) : List Remark :=
  ((Filter.new relevant).pushAll lines).remarks

end CompilerRemarks.Remark
