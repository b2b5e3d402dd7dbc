/-
  CompilerRemarks.Process.Collect

  Collecting remarks from a running compiler. What happens to it arrives as
  events in any order: parts of its output and of its complaints, its exit, a
  cancellation. Lines of output go to the filter, and each line of complaint
  to an observer, who may cancel at any time; a cancellation is noticed before
  anything else. The exit counts once output and complaints have ended.
-/
import CompilerRemarks.Process.Basic
import CompilerRemarks.Remark.Reader
import CompilerRemarks.Session.Analysis

namespace CompilerRemarks

/-- Who is told of complaints, and whether the collection was cancelled. -/
structure Observer (σ : Type) where
  report : σ → String → σ
  isCancelled : σ → Bool

namespace Collect

/-- What a compiler writes to. -/
inductive Channel where
  | output
  | complaints
  deriving DecidableEq, Repr

/-- What happens to a compiler. -/
inductive Event where
  /-- A part of what it writes arrives. -/
  | arrived (on : Channel) (part : Remark.Part)
  | exited (e : Exit)
  /-- Somebody cancels the collection. -/
  | cancelled
  /-- The time is up. -/
  | deadline
  deriving DecidableEq, Repr

/-- Why a collection stopped. -/
inductive Stop where
  | cancelled
  | timedOut
  | exited
  deriving DecidableEq, Repr

/-- The state of a collection. -/
structure State (σ : Type) where
  filter : Remark.Filter
  output : Remark.LineReader
  errors : Remark.LineReader
  /-- The complaints so far. -/
  complaints : List String
  observer : σ
  /-- How the compiler ended, if it did. -/
  exit : Option Exit
  stop : Option Stop

variable {σ : Type}

/-- A collection that has seen nothing. -/
def start (file : Path) (observer : σ) : State σ :=
  ⟨Remark.Filter.new file, .new, .new, [], observer, none, none⟩

namespace State

/-! ## Complaints -/

/-- Stops the collection if the observer cancelled it. -/
def look (o : Observer σ) (s : State σ) : State σ :=
  if s.stop.isNone && o.isCancelled s.observer then { s with stop := some .cancelled } else s

/-- Reports a complaint. -/
def report (o : Observer σ) (s : State σ) (line : String) : State σ :=
  { s with observer := o.report s.observer line, complaints := s.complaints ++ [line] }

/-- Takes a line of complaint, unless the collection was stopped. -/
def complain (o : Observer σ) (s : State σ) (line : String) : State σ :=
  let s := s.look o
  if s.stop.isSome then s else s.report o line

/-! ## Events -/

/-- Takes what arrives on a channel. -/
def arrive (o : Observer σ) (s : State σ) (part : Remark.Part) : Channel → State σ
  | .output =>
    let (lines, reader) := s.output.take part
    { s with output := reader, filter := s.filter.pushAll lines }
  | .complaints =>
    let (lines, reader) := s.errors.take part
    lines.foldl (complain o) { s with errors := reader }

/-- Takes an event. A compiler ends only once. -/
def take (o : Observer σ) (s : State σ) : Event → State σ
  | .arrived on part => s.arrive o part on
  | .exited e => { s with exit := s.exit.or (some e) }
  | .cancelled => { s with stop := some .cancelled }
  | .deadline => { s with stop := some .timedOut }

/-- The complaint about a compiler that failed without one. -/
def exitMessage (e : Exit) : String :=
  "compiler exited with " ++ e.text

/-- Takes note of how the compiler ended. -/
def takeExit (o : Observer σ) (s : State σ) (e : Exit) : State σ :=
  let s := if !e.isSuccess && s.complaints.isEmpty then s.report o (exitMessage e) else s
  { s with stop := some .exited }

/-- Stops the collection if it was cancelled, or if output and complaints have
    ended and the compiler has, too. -/
def settle (o : Observer σ) (s : State σ) : State σ :=
  let s := s.look o
  if s.stop.isSome || s.output.isOpen || s.errors.isOpen then s
  else
    match s.exit with
    | some e => s.takeExit o e
    | none => s

/-- Goes on by one event, unless the collection was stopped. -/
def step (o : Observer σ) (s : State σ) (event : Event) : State σ :=
  if s.stop.isSome then s else (s.take o event).settle o

/-- The message for a compiler that took too long. -/
def timeoutMessage (limit : Nat) : String :=
  "compiler did not finish within " ++ Text.decimal limit ++ "s"

/-- How a collection ended. A line that was being read when it was stopped
    does not count. -/
def conclude (o : Observer σ) (limit : Nat) (s : State σ) : Collected × State σ :=
  let remarks := s.filter.remarks
  match s.stop with
  | some .cancelled => (.cancelled remarks, s)
  | some .timedOut =>
    let message := timeoutMessage limit
    (.failed message remarks, s.report o message)
  | _ =>
    if s.complaints.isEmpty then (.completed remarks, s)
    else (.failed ("\n".intercalate s.complaints) remarks, s)

end State

/-- Collects the remarks of a file from the events of a compiler. -/
def run (o : Observer σ) (limit : Nat) (file : Path) (events : List Event) (observer : σ) :
    Collected × σ :=
  let last := events.foldl (State.step o) ((start file observer).look o)
  let (collected, s) := last.conclude o limit
  (collected, s.observer)

end Collect

end CompilerRemarks
