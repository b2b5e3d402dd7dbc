/-
  CompilerRemarks.Shell.Document

  Documents in a script: the lines after the one that names their end. Once
  read they are blotted out, so that the places of all else stay the same.
-/
import CompilerRemarks.Shell.Word

namespace CompilerRemarks.Shell

/-- The text up to the end of the line of commands, its line end included.
    Line ends in quotes do not count. -/
def commandLine : Nat → Option Char → List Char → List Char → List Char × List Char
  | 0, _, acc, s => (acc.reverse, s)
  | _, _, acc, [] => (acc.reverse, [])
  | fuel + 1, some q, acc, '\\' :: c :: rest =>
    if q == '\'' then
      commandLine fuel (if c == '\'' then none else some q) (c :: '\\' :: acc) rest
    else commandLine fuel (some q) (c :: '\\' :: acc) rest
  | fuel + 1, none, acc, '\\' :: c :: rest => commandLine fuel none (c :: '\\' :: acc) rest
  | fuel + 1, some q, acc, c :: rest =>
    commandLine fuel (if c == q then none else some q) (c :: acc) rest
  | fuel + 1, none, acc, c :: rest =>
    if c == '\n' then ((c :: acc).reverse, rest)
    else commandLine fuel (if c == '\'' || c == '"' then some c else none) (c :: acc) rest

/-- A document that was read. -/
structure Document where
  /-- Its lines. -/
  text : List Char
  /-- How many characters it takes up, its last line included. -/
  size : Nat
  /-- Whether its last line was found. -/
  isClosed : Bool

/-- Reads lines up to one that is `ending`. With `tabs`, tabs at the start of
    lines do not count. -/
def readDocument (tabs : Bool) (ending : List Char) : Nat → Nat → List Char → List Char → Document
  | 0, size, acc, _ => ⟨acc, size, false⟩
  | _, size, acc, [] => ⟨acc, size, false⟩
  | fuel + 1, size, acc, s =>
    let raw := s.takeWhile (· ≠ '\n')
    let line := if tabs then raw.dropWhile (· == '\t') else raw
    let after := s.drop (raw.length + 1)
    let size := size + min (raw.length + 1) s.length
    if line == ending then ⟨acc, size, true⟩
    else
      let lineEnd := if raw.length < s.length then ['\n'] else []
      readDocument tabs ending fuel size (acc ++ line ++ lineEnd) after

/-- Reads the document whose end the line of commands names, and blots it out
    of the text after that line. -/
def takeDocument (tabs : Bool) (ending : List Char) (s : List Char) : Document × List Char :=
  let (line, below) := commandLine (s.length + 1) none [] s
  let start := below.takeWhile (· == blot)
  let below := below.drop start.length
  let doc := readDocument tabs ending (below.length + 1) 0 [] below
  (doc, line ++ start ++ List.replicate doc.size blot ++ below.drop doc.size)

end CompilerRemarks.Shell
