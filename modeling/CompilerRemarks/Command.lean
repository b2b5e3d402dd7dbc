/-
  CompilerRemarks.Command

  The compiler invocation that builds one source file.
-/
import CompilerRemarks.Path.Basic
import CompilerRemarks.ShellWords
import CompilerRemarks.Text.Blank

namespace CompilerRemarks

/-- A compile command: the directory it runs in, the file it builds, and the
    shell line itself. -/
structure Command where
  directory : Path
  file : Path
  line : String
  deriving DecidableEq, Repr

namespace Command

/-- The words of the line; by blanks alone where its quotes are not balanced. -/
def arguments (c : Command) : List String :=
  (ShellWords.split? c.line).getD ((Text.words c.line.toList).map String.ofList)

/-- The compiler, which is the first word. -/
def program? (c : Command) : Option String :=
  c.arguments.head?

/-- The name of the file without its directory. -/
def fileName? (c : Command) : Option String :=
  c.file.fileName?.map String.ofList

/-- Whether the command builds the file at a path. -/
def isFor (c : Command) (p : Path) : Bool :=
  c.file.same p

/-- The shell line with flags added as they are, so that the shell may still
    expand them. -/
def withFlags (c : Command) (flags : List String) : String :=
  flags.foldl (fun line flag => line ++ " " ++ flag) (Text.trimmedEnd c.line)

end Command

end CompilerRemarks
