/-
  CompilerRemarks.Main

  The command line. The workspace comes as one line of JSON on standard
  input, so that a run touches nothing outside of it.
-/
import CompilerRemarks.Cli.Run
import CompilerRemarks.Files.Image
import CompilerRemarks.Json.Reader

namespace CompilerRemarks.Cli

/-- What is said of a command line that is not run. -/
def Usage.message : Usage → String
  | .unknownArgument => "error: unexpected argument"
  | .unknownCommand => "error: unrecognized subcommand"
  | .missingRequired => "error: a required argument was not provided"
  | .missingCommand => "error: a subcommand is required but none was provided"
  | .nothingGiven => "usage: optinfo [OPTIONS] <COMMAND>"
  | .missingValue => "error: a value is required but none was supplied"
  | .notANumber => "error: invalid value for a number"
  | .unneededValue => "error: unexpected value for a switch"
  | .conflict => "error: an argument cannot be used here, or not twice"
  | .help => "usage: optinfo [OPTIONS] <COMMAND>"
  | .version => "optinfo"

/-- The exit status of a command line that is not run; what was asked for is
    no error. -/
def Usage.status : Usage → UInt32
  | .help => 0
  | .version => 0
  | _ => 2

/-- The exit status of a run. -/
def Report.status (r : Report) : UInt32 :=
  if r.failure.isEmpty then 0 else 1

/-- What is said of a run that went wrong: the message and its causes. -/
def Report.failureLines (r : Report) : List String :=
  match r.failure with
  | [] => []
  | message :: causes =>
    ("Error: " ++ message) ::
      (if causes.isEmpty then [] else ["", "Caused by:"] ++ causes.map ("    " ++ ·))

end CompilerRemarks.Cli

open CompilerRemarks in
/-- Runs a command line on the workspace that standard input holds. -/
def main (args : List String) : IO UInt32 := do
  match Cli.Invocation.parse args with
  | .error u =>
    IO.eprintln u.message
    return u.status
  | .ok invocation =>
    let line ← (← IO.getStdin).getLine
    match (Json.ofChars? line.toList).bind Files.ofImage? with
    | none =>
      IO.eprintln "Error: standard input holds no workspace"
      return 1
    | some files =>
      let (report, _) := invocation.run files
      IO.print (Cli.Report.textOf report.output)
      IO.eprint (Cli.Report.textOf (report.errors ++ report.failureLines))
      return report.status
