/-
  CompilerRemarks.Shell.Script

  Shell scripts: words with their expansions, redirections, assignments,
  conditions and commands.
-/

namespace CompilerRemarks.Shell

/-- Which shell reads a script. -/
inductive Dialect where
  /-- The shell with arrays, conditions in double brackets and process
      substitution. -/
  | bash
  /-- The plain shell of the standard. -/
  | plain
  deriving DecidableEq, Repr

/-! ## Words -/

/-- Which elements of an array a reference names. -/
inductive Subscript where
  /-- All of them, as one text if `joined`. -/
  | all (joined : Bool)
  /-- The one at the value of an expression or key. -/
  | at (source : List Char)
  deriving DecidableEq, Repr

/-- What a parameter expansion looks up. -/
structure Reference where
  name : List Char
  subscript : Option Subscript
  /-- Whether the value is the name of the parameter that is meant. -/
  indirect : Bool
  /-- Whether it is written in braces. -/
  inBraces : Bool
  deriving DecidableEq, Repr

/-- Where a replacement takes place. -/
inductive Extent where
  | first
  | every
  | atStart
  | atEnd
  deriving DecidableEq, Repr

/-- How the value of a parameter is altered. Patterns and texts are kept as
    they are written, because they are expanded only when they are needed. -/
inductive Change where
  | none
  /-- Its length, or the number of elements. -/
  | size
  /-- The subscripts of an array. -/
  | keys
  /-- A leading match of the pattern is dropped. -/
  | dropStart (longest : Bool) (pattern : List Char)
  /-- A trailing match of the pattern is dropped. -/
  | dropEnd (longest : Bool) (pattern : List Char)
  /-- What stands for a missing value, and perhaps for an empty one. -/
  | orElse (emptyToo : Bool) (text : List Char)
  /-- What stands for a value that is there. -/
  | ifSet (emptyToo : Bool) (text : List Char)
  /-- What a missing value is set to. -/
  | orSet (emptyToo : Bool) (text : List Char)
  /-- What is said when a value is missing. -/
  | orFail (emptyToo : Bool) (text : List Char)
  /-- A part of it, from an offset on. -/
  | slice (offset : List Char) (length : Option (List Char))
  | replace (extent : Extent) (pattern by_ : List Char)
  /-- Letters in upper or lower case, only the first one unless `every`. -/
  | recase (upper every : Bool)
  /-- Quoted so that a shell reads it back. -/
  | requote
  deriving DecidableEq, Repr

/-- A part of a word. -/
inductive Part where
  | text (s : List Char) (quoted : Bool)
  | parameter (ref : Reference) (change : Change) (quoted : Bool)
  /-- The output of a script. -/
  | capture (source : List Char) (quoted : Bool)
  /-- The value of an expression. -/
  | arithmetic (source : List Char) (quoted : Bool)
  /-- A path at which a script reads what is written there, or the other way
      round. -/
  | channel (outward : Bool) (source : List Char)
  /-- A parameter expansion that makes no sense. -/
  | senseless (source : List Char)
  deriving DecidableEq, Repr

/-- Whether a part is the output of a script. -/
def Part.isCapture : Part → Bool
  | .capture .. => true
  | _ => false

/-- A word before expansion. -/
abbrev Word := List Part

/-! ## Redirections -/

/-- What a stream is redirected to. -/
inductive Target where
  | read (w : Word)
  | write (w : Word)
  /-- Written even where files are to be kept. -/
  | overwrite (w : Word)
  | append (w : Word)
  /-- Written at its start without being emptied. -/
  | update (w : Word)
  /-- The same as the stream that the word names, or nothing at all for `-`.
      Any other word names a file for both output streams if `both`. -/
  | copy (w : Word) (both : Bool)
  /-- Read the word itself and a line end. -/
  | here (w : Word)
  /-- Read the lines of a document. Without its last line, `wanted` tells the
      line of its start and the end that was looked for. -/
  | document (w : Word) (wanted : Option (Nat × Nat × List Char))
  deriving DecidableEq, Repr

/-- A redirection of a stream. With a name, a new stream is redirected and the
    variable of that name is set to its number. -/
structure Redirect where
  stream : Nat
  name : Option (List Char)
  target : Target
  deriving DecidableEq, Repr

/-! ## Assignments -/

/-- The value of an assignment. -/
inductive Assigned where
  | single (w : Word)
  /-- The elements of an array, some with their subscripts. -/
  | elements (items : List (Option (List Char) × Word))
  deriving DecidableEq, Repr

/-- An assignment to a variable or an element of an array. -/
structure Setting where
  name : List Char
  subscript : Option (List Char)
  /-- Whether the value is added to the one before. -/
  adds : Bool
  value : Assigned
  deriving DecidableEq, Repr

/-! ## Conditions -/

/-- A condition in double brackets. -/
inductive Condition where
  | filled (w : Word)
  | unary (op : List Char) (w : Word)
  | binary (a : Word) (op : List Char) (b : Word)
  | negated (c : Condition)
  | both (a b : Condition)
  | either (a b : Condition)
  deriving Repr

/-! ## Commands -/

/-- What follows an arm of a selection that was run. -/
inductive ArmEnd where
  | done
  /-- The next arm, whatever its pattern. -/
  | fallThrough
  /-- The next arm that matches. -/
  | goOn
  deriving DecidableEq, Repr

/-- A command. -/
inductive Tree where
  | skip
  | simple (line : Nat) (settings : List Setting) (words : List Word) (declared : List Setting)
      (redirects : List Redirect)
  | sequence (a b : Tree)
  /-- Both, unless the first fails. -/
  | both (a b : Tree)
  /-- The second only if the first fails. -/
  | either (a b : Tree)
  | negated (a : Tree)
  /-- Each reads what the one before writes. -/
  | pipe (stages : List Tree)
  | background (a : Tree)
  /-- Tells how long it takes; briefly in the form of the standard. -/
  | timed (brief : Bool) (a : Tree)
  | group (a : Tree) (redirects : List Redirect)
  | subshell (a : Tree) (redirects : List Redirect)
  /-- Once for each word, or for each argument of the script. -/
  | forEach (line : Nat) (name : List Char) (words : Option (List Word)) (body : Tree)
      (redirects : List Redirect)
  /-- A loop with a start, a condition and a step as expressions. -/
  | count (line : Nat) (start condition step : List Char) (body : Tree) (redirects : List Redirect)
  | branch (condition yes no : Tree) (redirects : List Redirect)
  | loop (whileTrue : Bool) (condition body : Tree) (redirects : List Redirect)
  | select (line : Nat) (word : Word) (arms : List (List Word × Tree × ArmEnd))
      (redirects : List Redirect)
  | holds (line : Nat) (condition : Condition) (redirects : List Redirect)
  /-- Succeeds if the value of the expression is not zero. -/
  | calculate (line : Nat) (source : List Char) (redirects : List Redirect)
  | define (name : List Char) (body : Tree)
  deriving Repr

/-- Why a script cannot be read. Places are given by the text from them on. -/
inductive Fault where
  /-- A quote or bracket without its end, and its place. -/
  | unterminated (mark : Char) (place : List Char)
  /-- Commands in brackets without their end. -/
  | unclosed
  /-- A token where it may not stand, what follows it, and what was wanted in
      its place if there is only one thing that could stand there. -/
  | unexpected (token rest : List Char) (wanted : String)
  /-- A condition that cannot be read: what is wrong from some place on, and
      what follows the token that shows it. -/
  | condition (what : List String) (place rest : List Char)
  /-- A condition without its end. -/
  | conditionEnded (what : String) (place : List Char)
  /-- A loop whose head does not have three expressions. -/
  | counting (what : String) (source rest : List Char)
  /-- A name that the plain shell does not take, and what follows it. -/
  | badName (what : String) (rest : List Char)
  /-- The script ends too early; what was wanted if there is only one thing
      that could follow. -/
  | ended (wanted : String)
  deriving DecidableEq, Repr

end CompilerRemarks.Shell
