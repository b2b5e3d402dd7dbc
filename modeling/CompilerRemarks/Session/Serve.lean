/-
  CompilerRemarks.Session.Serve

  Serving a request for the remarks in a range: from the cache, or by running
  the compiler.
-/
import CompilerRemarks.Process.Producer
import CompilerRemarks.Session.Analysis

namespace CompilerRemarks

/-- What serving a request reads and changes; `observer` is told of the
    compiler's complaints. -/
structure Scene (σ : Type) where
  session : Session
  files : Files
  latch : Latch
  observer : σ

namespace Analysis

variable {σ : Type}

/-- The observer of an analysis: complaints may be answered by operations on
    the session, and a token that was tripped there cancels. -/
def observerOf (report : Session × σ → String → Session × σ) (t : Ticket) :
    Observer (Session × σ) :=
  ⟨report, fun (s, _) => (s.token? t).getD false⟩

/-- Collects remarks under a ticket; `arrival` is how what the compiler does
    reaches the collection. -/
def collectAlong (arrival : Process.Done → List Collect.Event) (settings : Settings) (c : Command)
    (report : Session × σ → String → Session × σ) (t : Ticket) (scene : Scene σ) :
    Collected × Scene σ :=
  let r := Producer.produceAlong arrival settings scene.files scene.latch c (observerOf report t)
    (scene.session, scene.observer)
  (r.collected, ⟨r.observer.1, r.files, r.latch, r.observer.2⟩)

/-- The remarks of a command's file in a range, collected along an arrival.
    Only a completed collection is cached. -/
def serveAlong (arrival : Process.Done → List Collect.Event) (settings : Settings) (c : Command)
    (range : Range) (report : Session × σ → String → Session × σ) (scene : Scene σ) :
    Option Answer × Scene σ :=
  run ⟨c.file, range⟩ Scene.session (fun s w => { w with session := s })
    (collectAlong arrival settings c report) scene

/-- The remarks of a command's file in a range, where the compiler is seen to
    do everything in the order in which it does it. -/
def serve (settings : Settings) (c : Command) (range : Range)
    (report : Session × σ → String → Session × σ) (scene : Scene σ) :
    Option Answer × Scene σ :=
  serveAlong Producer.eventsOf settings c range report scene

end Analysis

end CompilerRemarks
