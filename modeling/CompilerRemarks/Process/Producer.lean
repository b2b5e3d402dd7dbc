/-
  CompilerRemarks.Process.Producer

  Running a compile command again so that it prints its optimization record,
  and collecting the remarks of its file.
-/
import CompilerRemarks.Command
import CompilerRemarks.Failure
import CompilerRemarks.Notice
import CompilerRemarks.Process.Collect
import CompilerRemarks.Process.Start
import CompilerRemarks.Settings.Basic

namespace CompilerRemarks.Producer

/-! ## The toolchain -/

/-- Checks that the shell and the compiler can be found before anything is
    started. A compiler given with a directory is looked for from the
    directory of its command. -/
def check (settings : Settings) (files : Files) (c : Command) : Except Failure Unit :=
  if !Process.isInstalled files settings.shell then .error (.toolchainMissing settings.shell)
  else
    match c.program? with
    | none => .error (.emptyCommand c.file)
    | some program =>
      let found := if program.toList.contains '/' then files.isFile (c.directory.join ⟨program⟩)
        else Process.isInstalled files program
      if found then .ok () else .error (.toolchainMissing program)

/-- The notice that a failure raises, if any. -/
def notice? : Failure → Option Notice
  | .toolchainMissing program =>
    some ⟨.toolchainMissing, "`" ++ program ++ "` was not found; is the toolchain on PATH?"⟩
  | _ => none

/-! ## Collecting -/

/-- The event of what a compiler wrote. -/
def eventOf? (e : Emission) : Option Collect.Event :=
  if e.stream == Emission.output then some (.arrived .output (.bytes e.bytes))
  else if e.stream == Emission.errors then some (.arrived .complaints (.bytes e.bytes))
  else none

/-- The events of a process that ran to its end, in the order in which it
    wrote. -/
def eventsOf (done : Process.Done) : List Collect.Event :=
  done.log.filterMap eventOf? ++
    [.arrived .output .ending, .arrived .complaints .ending, .exited done.exit]

/-- What collecting leaves behind. -/
structure Outcome (σ : Type) where
  collected : Collected
  observer : σ
  latch : Latch
  files : Files

variable {σ : Type}

/-- Ends before anything ran. -/
def refuse (o : Observer σ) (observer : σ) (latch : Latch) (files : Files) (f : Failure) :
    Outcome σ :=
  let latch := match notice? f with
    | some n => latch.raise n
    | none => latch
  ⟨.failed f.message [], o.report observer f.message, latch, files⟩

/-- Collects the remarks of a compile command; `arrival` is how what the
    compiler does reaches the collection. A collection cancelled from the
    start, or without any time, sees nothing of the compiler. -/
def produceAlong (arrival : Process.Done → List Collect.Event) (settings : Settings)
    (files : Files) (latch : Latch) (c : Command) (o : Observer σ) (observer : σ) : Outcome σ :=
  match check settings files c with
  | .error f => refuse o observer latch files f
  | .ok () =>
    match Process.run files settings.shell ["-c", c.withFlags settings.recordFlags]
        (some c.directory) with
    | .error e => refuse o observer latch files (.spawn settings.shell e)
    | .ok done =>
      let isCut := o.isCancelled observer || settings.timeout == some 0
      let events := if isCut then [.deadline] else arrival done
      let (collected, observer) := Collect.run o (settings.timeout.getD 0) c.file events observer
      ⟨collected, observer, latch, if isCut then files else done.files⟩

/-- Collects the remarks of a compile command whose compiler is seen to do
    everything in the order in which it does it. -/
def produce (settings : Settings) (files : Files) (latch : Latch) (c : Command)
    (o : Observer σ) (observer : σ) : Outcome σ :=
  produceAlong eventsOf settings files latch c o observer

end CompilerRemarks.Producer
