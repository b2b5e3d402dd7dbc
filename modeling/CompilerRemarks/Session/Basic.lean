/-
  CompilerRemarks.Session.Basic

  One analysis at a time, and the remarks of the file analysed last. Each
  analysis that starts gets a ticket, and only the current ticket may store
  results or release the session.
-/
import CompilerRemarks.Remark.Query
import CompilerRemarks.Path.Basic

namespace CompilerRemarks

/-- The number of an analysis that was started. -/
structure Ticket where
  number : Nat
  deriving DecidableEq, Repr

/-- The analysis that is running. -/
structure Running where
  ticket : Ticket
  file : Path
  /-- The range asked for last. -/
  range : Range
  /-- Whether it was told to stop. -/
  cancelled : Bool
  deriving DecidableEq, Repr

/-- The remarks of a file. -/
structure Cached where
  file : Path
  remarks : List Remark
  deriving DecidableEq, Repr

/-- The state of a session. -/
structure Session where
  /-- How many analyses were started. -/
  started : Nat
  running : Option Running
  cache : Option Cached
  deriving DecidableEq, Repr

/-- The answer to a request to start an analysis. -/
inductive Begin where
  /-- Nothing was running; the caller holds the session now. -/
  | started (t : Ticket)
  /-- The file is being analysed already, and its range was replaced. -/
  | rangeUpdated
  /-- Another file is being analysed. -/
  | busy (running : Path)
  deriving DecidableEq, Repr

namespace Session

/-- Nothing running, nothing cached. -/
def new : Session := ⟨0, none, none⟩

/-! ## Starting -/

/-- Drops remarks of any other file. -/
def keepCacheOf (file : Path) (cache : Option Cached) : Option Cached :=
  cache.filter (·.file.same file)

/-- Claims the session for a file. -/
def begin (s : Session) (file : Path) (range : Range) : Begin × Session :=
  match s.running with
  | some r =>
    if r.file.same file then (.rangeUpdated, { s with running := some { r with range := range } })
    else (.busy r.file, s)
  | none =>
    let ticket : Ticket := ⟨s.started + 1⟩
    (.started ticket,
      ⟨s.started + 1, some ⟨ticket, file, range, false⟩, keepCacheOf file s.cache⟩)

/-! ## Looking -/

/-- The running analysis, if it holds this ticket. -/
def holder? (s : Session) (t : Ticket) : Option Running :=
  s.running.filter (·.ticket == t)

/-- Whether the analysis with this ticket was told to stop; `none` if it is
    not the running one. -/
def token? (s : Session) (t : Ticket) : Option Bool :=
  (s.holder? t).map (·.cancelled)

/-- The file being analysed. -/
def runningFile? (s : Session) : Option Path :=
  s.running.map (·.file)

/-- The cached remarks of a file. -/
def cached? (s : Session) (file : Path) : Option (List Remark) :=
  (s.cache.filter (·.file.same file)).map (·.remarks)

/-! ## Ending -/

/-- Stores the remarks of the running file; whether they were stored. -/
def complete (s : Session) (t : Ticket) (remarks : List Remark) : Bool × Session :=
  match s.holder? t with
  | some r => (true, { s with cache := some ⟨r.file, remarks⟩ })
  | none => (false, s)

/-- Releases the session; the range asked for last. -/
def finish (s : Session) (t : Ticket) : Option Range × Session :=
  match s.holder? t with
  | some r => (some r.range, { s with running := none })
  | none => (none, s)

/-- Tells the running analysis to stop; whether there was one. -/
def cancel (s : Session) : Bool × Session :=
  match s.running with
  | some r => (true, { s with running := some { r with cancelled := true } })
  | none => (false, s)

/-- Drops the cached remarks of the active file when it is saved; whether
    there were any. -/
def save (s : Session) (saved : Path) (active : Option Path) : Bool × Session :=
  if active.any (·.same saved) && (s.cached? saved).isSome then (true, { s with cache := none })
  else (false, s)

end Session

end CompilerRemarks
