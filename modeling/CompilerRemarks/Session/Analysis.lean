/-
  CompilerRemarks.Session.Analysis

  The course of one analysis, step by step. Each step is a single operation
  on the session, so that several analyses may be interleaved.
-/
import CompilerRemarks.Session.Basic

namespace CompilerRemarks

/-- How collecting remarks ended. -/
inductive Collected where
  | completed (remarks : List Remark)
  | cancelled (remarks : List Remark)
  | failed (message : String) (remarks : List Remark)
  deriving DecidableEq, Repr

namespace Collected

/-- The remarks collected up to the end. -/
def remarks : Collected → List Remark
  | .completed rs => rs
  | .cancelled rs => rs
  | .failed _ rs => rs

/-- Why collecting failed, if it did. -/
def failure? : Collected → Option String
  | .failed message _ => some message
  | _ => none

end Collected

namespace Analysis

/-- What an analysis was asked for. -/
structure Request where
  file : Path
  range : Range
  deriving DecidableEq, Repr

/-- The answer of an analysis. -/
inductive Answer where
  | remarks (g : Grouped)
  /-- Another analysis of the file is running and will serve the range. -/
  | rangeUpdated
  | cancelled
  /-- The compiler failed, but printed some remarks before. -/
  | incomplete (g : Grouped) (message : String)
  | failed (message : String)
  /-- Another file is being analysed. -/
  | busy (running : Path)
  | unanswerable (e : QueryError)
  deriving DecidableEq, Repr

/-- The text that refuses a second file. -/
def busyMessage (running : Path) : String :=
  "still collecting remarks for " ++ running.text ++ "; cancel the running task first"

/-- Where an analysis stands. -/
inductive Phase where
  /-- About to look into the cache. -/
  | asking
  /-- About to claim the session. -/
  | claiming
  /-- Collecting remarks. -/
  | running (t : Ticket)
  /-- About to store what was collected. -/
  | storing (t : Ticket) (remarks : List Remark)
  /-- About to release the session and to query; the message tells of a
      compiler that failed. -/
  | releasing (t : Ticket) (remarks : List Remark) (message : Option String)
  /-- About to make sure that the ticket is released. -/
  | dropping (t : Ticket) (a : Answer)
  | done (a : Answer)
  deriving DecidableEq, Repr

/-- The answer to a query, whose remarks may be incomplete. -/
def answerQuery (remarks : List Remark) (range : Range) (message : Option String) : Answer :=
  match Remark.query remarks range with
  | .error e => .unanswerable e
  | .ok g =>
    match message with
    | none => .remarks g
    | some m => .incomplete g m

/-- Where an analysis goes on after collecting. -/
def Phase.after (t : Ticket) : Collected → Phase
  | .cancelled _ => .dropping t .cancelled
  | .failed message [] => .dropping t (.failed message)
  | .failed message remarks => .releasing t remarks (some message)
  | .completed remarks => .storing t remarks

/-- One step of an analysis. `collected` is how collecting ends. -/
def step (q : Request) (collected : Collected) (s : Session) : Phase → Session × Phase
  | .asking =>
    if q.range.isInverted then (s, .done (.unanswerable (.inverted q.range)))
    else match s.cached? q.file with
      | some remarks => (s, .done (answerQuery remarks q.range none))
      | none => (s, .claiming)
  | .claiming =>
    match s.begin q.file q.range with
    | (.started t, s) => (s, .running t)
    | (.rangeUpdated, s) => (s, .done .rangeUpdated)
    | (.busy file, s) => (s, .done (.busy file))
  | .running t => (s, .after t collected)
  | .storing t remarks => ((s.complete t remarks).2, .releasing t remarks none)
  | .releasing t remarks message =>
    let (range, s) := s.finish t
    (s, .dropping t (answerQuery remarks (range.getD q.range) message))
  | .dropping t a => ((s.finish t).2, .done a)
  | .done a => (s, .done a)

/-- The answer of a phase that is the last. -/
def Phase.answer? : Phase → Option Answer
  | .done a => some a
  | _ => none

/-- Brings an analysis whose remarks are collected to its end, which is at
    most four steps away. -/
def finish (q : Request) (collected : Collected) (st : Session × Phase) : Session × Phase :=
  let go := fun (st : Session × Phase) => step q collected st.1 st.2
  go (go (go (go st)))

/-- Runs an analysis. `collect` collects remarks under a ticket in a world
    that holds the session. -/
def run {ω : Type} (q : Request) (session : ω → Session) (put : Session → ω → ω)
    (collect : Ticket → ω → Collected × ω) (w : ω) : Option Answer × ω :=
  let stub : Collected := .cancelled []
  let asked := step q stub (session w) .asking
  let (s, phase) := match asked.2 with
    | .claiming => step q stub asked.1 .claiming
    | _ => asked
  let w := put s w
  match phase with
  | .running t =>
    let (collected, w) := collect t w
    let (s, phase) := finish q collected (session w, .running t)
    (phase.answer?, put s w)
  | phase => (phase.answer?, w)

end Analysis

end CompilerRemarks
