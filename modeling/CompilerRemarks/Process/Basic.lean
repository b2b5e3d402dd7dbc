/-
  CompilerRemarks.Process.Basic

  What can be seen of a process from outside: what it writes, in order, and
  how it ends.
-/
import CompilerRemarks.Text.Numeral

namespace CompilerRemarks

/-- Bytes written to a numbered stream. -/
structure Emission where
  stream : Nat
  bytes : List UInt8
  deriving DecidableEq, Repr

namespace Emission

/-- The stream of standard output. -/
def output : Nat := 1

/-- The stream of standard error. -/
def errors : Nat := 2

/-- All bytes written to a stream. -/
def on (stream : Nat) (log : List Emission) : List UInt8 :=
  (log.filter (·.stream == stream)).flatMap (·.bytes)

end Emission

/-- How a process ends. -/
inductive Exit where
  | code (n : Nat)
  | signal (n : Nat)
  deriving DecidableEq, Repr

namespace Exit

/-- Whether the process ended well. -/
def isSuccess : Exit → Bool
  | .code n => n == 0
  | .signal _ => false

/-- The number by which a shell knows an ending. -/
def number : Exit → Nat
  | .code n => n
  | .signal n => 128 + n

/-- The names of the signals from one on, and what a shell says of a process
    that one of them ended. -/
def signals : List (String × String) :=
  [("HUP", "Hangup"), ("INT", ""), ("QUIT", "Quit"), ("ILL", "Illegal instruction"),
   ("TRAP", "Trace/breakpoint trap"), ("ABRT", "Aborted"), ("BUS", "Bus error"),
   ("FPE", "Floating point exception"), ("KILL", "Killed"), ("USR1", "User defined signal 1"),
   ("SEGV", "Segmentation fault"), ("USR2", "User defined signal 2"), ("PIPE", ""),
   ("ALRM", "Alarm clock"), ("TERM", "Terminated"), ("STKFLT", "Stack fault"),
   ("CHLD", "Child exited"), ("CONT", "Continued"), ("STOP", "Stopped (signal)"),
   ("TSTP", "Stopped"), ("TTIN", "Stopped (tty input)"), ("TTOU", "Stopped (tty output)"),
   ("URG", "Urgent I/O condition"), ("XCPU", "CPU time limit exceeded"),
   ("XFSZ", "File size limit exceeded"), ("VTALRM", "Virtual timer expired"),
   ("PROF", "Profiling timer expired"), ("WINCH", "Window changed"), ("IO", "I/O possible"),
   ("PWR", "Power failure"), ("SYS", "Bad system call")]

/-- The entry of a signal. -/
def signal? (n : Nat) : Option (String × String) :=
  if n == 0 then none else signals[n - 1]?

/-- The greatest number of a signal. -/
def lastSignal : Nat := 64

/-- The number of a signal by name, in any case. -/
def signalByName? (s : List Char) : Option Nat :=
  let name := s.map Char.toUpper
  ((signals.zipIdx 1).find? (·.1.1.toList == name)).map (·.2)

/-- The number of a signal, given by number or by name. -/
def signalNumber? (s : List Char) : Option Nat :=
  match Text.digits? 10 s with
  | some n => if n ≤ lastSignal then some n else none
  | none => signalByName? s

/-- The text of an ending. -/
def text : Exit → String
  | .code n => "exit status: " ++ Text.decimal n
  | .signal n =>
    match signal? n with
    | some (name, _) => "signal: " ++ Text.decimal n ++ " (SIG" ++ name ++ ")"
    | none => "signal: " ++ Text.decimal n

end Exit

end CompilerRemarks
