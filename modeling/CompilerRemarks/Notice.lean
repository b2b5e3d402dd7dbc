/-
  CompilerRemarks.Notice

  Notices that are shown once per kind. The latch remembers which kinds were
  shown and which were dismissed, and queues what was not yet collected.
-/

namespace CompilerRemarks

namespace Notice

/-- What a notice is about. -/
inductive Kind where
  | missingDatabase
  | malformedDatabase
  | invalidRecordFile
  | invalidRecordDirectory
  | invalidRecordInvocation
  | noMatchingCommand
  | toolchainMissing
  deriving DecidableEq, Repr

/-- The name of a kind. -/
def Kind.name : Kind → String
  | .missingDatabase => "missing-database"
  | .malformedDatabase => "malformed-database"
  | .invalidRecordFile => "invalid-record-file"
  | .invalidRecordDirectory => "invalid-record-directory"
  | .invalidRecordInvocation => "invalid-record-invocation"
  | .noMatchingCommand => "no-matching-command"
  | .toolchainMissing => "toolchain-missing"

/-- Every kind. -/
def Kind.all : List Kind :=
  [.missingDatabase, .malformedDatabase, .invalidRecordFile, .invalidRecordDirectory,
    .invalidRecordInvocation, .noMatchingCommand, .toolchainMissing]

/-- The kind of a name. -/
def Kind.ofName? (name : String) : Option Kind :=
  all.find? (·.name == name)

end Notice

/-- A notice. -/
structure Notice where
  kind : Notice.Kind
  message : String
  deriving DecidableEq, Repr

/-- Which kinds were shown and dismissed, and the notices not yet collected,
    oldest first. -/
structure Latch where
  shown : List Notice.Kind
  dismissed : List Notice.Kind
  pending : List Notice
  deriving DecidableEq, Repr

namespace Latch

/-- Nothing shown, nothing dismissed. -/
def new : Latch := ⟨[], [], []⟩

/-- Whether a notice of this kind would be shown. -/
def isOpen (l : Latch) (kind : Notice.Kind) : Bool :=
  !(l.dismissed.contains kind || l.shown.contains kind)

/-- Queues a notice if it is the first of its kind and the kind was not
    dismissed. -/
def raise (l : Latch) (n : Notice) : Latch :=
  if l.isOpen n.kind then { l with shown := n.kind :: l.shown, pending := l.pending ++ [n] }
  else l

/-- Silences a kind for good and drops what is queued of it. -/
def dismiss (l : Latch) (kind : Notice.Kind) : Latch :=
  { l with
    dismissed := kind :: l.dismissed
    pending := l.pending.filter (·.kind != kind) }

/-- Lets a kind be shown again. -/
def reset (l : Latch) (kind : Notice.Kind) : Latch :=
  { l with shown := l.shown.filter (· != kind) }

/-- Whether a kind was dismissed. -/
def isDismissed (l : Latch) (kind : Notice.Kind) : Bool :=
  l.dismissed.contains kind

/-- Takes the queued notices out. -/
def drain (l : Latch) : List Notice × Latch :=
  (l.pending, { l with pending := [] })

end Latch

end CompilerRemarks
