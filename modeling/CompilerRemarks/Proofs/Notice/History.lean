/-
  CompilerRemarks.Proofs.Notice.History

  A latch told from its history. `history` lists the operations of a run, each
  with the latch before it and the operations after it. Handles that share a
  latch perform their operations on it one after the other, so whichever handle
  an operation goes through, a run is one list of them. A kind is open just if
  it was never dismissed and every notice of it that was queued came before a
  reset of it (`isOpen_after_iff`); and what was drained with what is queued
  are the queued notices in order, less those that were still in the queue when
  their kind was dismissed (`drained_append_pending`).
-/
import CompilerRemarks.Notice

namespace CompilerRemarks.Latch

open Notice (Kind)

/-! ## Operations -/

/-- An operation on a latch, with its arguments. -/
inductive Operation where
  | raise (n : Notice)
  | dismiss (kind : Kind)
  | reset (kind : Kind)
  | isDismissed (kind : Kind)
  | drain
  deriving DecidableEq, Repr

/-- What an operation answers. -/
inductive Response where
  | raised (queued : Bool)
  | dismissed (answer : Bool)
  | drained (notices : List Notice)
  | done
  deriving DecidableEq, Repr

/-- Performs an operation. -/
def perform (l : Latch) : Operation → Response × Latch
  | .raise n => (.raised (l.isOpen n.kind), l.raise n)
  | .dismiss kind => (.done, l.dismiss kind)
  | .reset kind => (.done, l.reset kind)
  | .isDismissed kind => (.dismissed (l.isDismissed kind), l)
  | .drain => (.drained l.drain.1, l.drain.2)

/-- The latch after some operations. -/
def after (l : Latch) (ops : List Operation) : Latch :=
  ops.foldl (fun l op => (l.perform op).2) l

/-- An operation of a run with the latch that it meets and the operations
    that come after it. -/
structure Event where
  before : Latch
  operation : Operation
  later : List Operation

/-- The events of a run. -/
def history (l : Latch) : List Operation → List Event
  | [] => []
  | op :: rest => ⟨l, op, rest⟩ :: history (l.perform op).2 rest

namespace Event

/-- What the operation of an event answers. -/
def response (e : Event) : Response :=
  (e.before.perform e.operation).1

/-- The notice that an event queues, if it raises one with success. -/
def queued? (e : Event) : Option Notice :=
  match e.operation, e.response with
  | .raise n, .raised true => some n
  | _, _ => none

/-- The notices that an event hands out. -/
def drained (e : Event) : List Notice :=
  match e.response with
  | .drained notices => notices
  | _ => []

end Event

/-- A notice of this kind stays in the queue until the next drain. -/
def staysQueued (kind : Kind) (later : List Operation) : Bool :=
  !(later.takeWhile (· ≠ .drain)).contains (.dismiss kind)

/-- The notice that an event queues, unless its kind is dismissed before the
    queue is drained. -/
def Event.kept? (e : Event) : Option Notice :=
  e.queued?.filter fun n => staysQueued n.kind e.later

/-! ## What an operation can do -/

theorem mem_shown_raise (l : Latch) (n : Notice) (kind : Kind) :
    kind ∈ (l.raise n).shown ↔ (l.isOpen n.kind = true ∧ n.kind = kind) ∨ kind ∈ l.shown := by
  rw [raise]
  split
  case isTrue hopen => simp [hopen, eq_comm]
  case isFalse hclosed => simp [hclosed]

/-- A kind counts as shown after an operation if the operation queues a notice
    of it, or if it was shown before and is not reset. -/
theorem mem_shown_perform_iff (l : Latch) (op : Operation) (later : List Operation) (kind : Kind) :
    kind ∈ (l.perform op).2.shown ↔
      (∃ n, Event.queued? ⟨l, op, later⟩ = some n ∧ n.kind = kind) ∨
        (kind ∈ l.shown ∧ op ≠ .reset kind) := by
  cases op with
  | raise n =>
    rw [perform, mem_shown_raise]
    cases hopen : l.isOpen n.kind <;> simp [Event.queued?, Event.response, perform, hopen]
  | dismiss k => simp [perform, dismiss, Event.queued?]
  | reset k =>
    have hmem : kind ∈ (l.reset k).shown ↔ kind ∈ l.shown ∧ k ≠ kind := by
      rw [reset, List.mem_filter, bne_iff_ne, ne_comm]
    simp [perform, Event.queued?, hmem]
  | isDismissed k => simp [perform, Event.queued?]
  | drain => simp [perform, drain, Event.queued?]

theorem mem_dismissed_perform_iff (l : Latch) (op : Operation) (kind : Kind) :
    kind ∈ (l.perform op).2.dismissed ↔ op = .dismiss kind ∨ kind ∈ l.dismissed := by
  cases op with
  | raise n =>
    have hsame : (l.raise n).dismissed = l.dismissed := by
      rw [raise]
      split <;> rfl
    simp [perform, hsame]
  | dismiss k => simp [perform, dismiss, eq_comm]
  | reset k => simp [perform, reset]
  | isDismissed k => simp [perform]
  | drain => simp [perform, drain]

theorem isOpen_iff (l : Latch) (kind : Kind) :
    l.isOpen kind = true ↔ kind ∉ l.dismissed ∧ kind ∉ l.shown := by
  simp [isOpen]

/-! ## Open kinds -/

theorem mem_dismissed_after_iff (l : Latch) (ops : List Operation) (kind : Kind) :
    kind ∈ (after l ops).dismissed ↔ .dismiss kind ∈ ops ∨ kind ∈ l.dismissed := by
  induction ops generalizing l with
  | nil => simp [after]
  | cons op rest ih =>
    have hafter : after l (op :: rest) = after (l.perform op).2 rest := rfl
    rw [hafter, ih, mem_dismissed_perform_iff, List.mem_cons, eq_comm, or_left_comm, or_assoc]

/-- A kind counts as shown after a run if a notice of it was queued, or if it
    was shown before, and it was not reset since. -/
theorem mem_shown_after_iff (l : Latch) (ops : List Operation) (kind : Kind) :
    kind ∈ (after l ops).shown ↔
      (∃ e ∈ history l ops, (∃ n, e.queued? = some n ∧ n.kind = kind) ∧ .reset kind ∉ e.later) ∨
        (kind ∈ l.shown ∧ .reset kind ∉ ops) := by
  induction ops generalizing l with
  | nil => simp [after, history]
  | cons op rest ih =>
    have hafter : after l (op :: rest) = after (l.perform op).2 rest := rfl
    have hreset : .reset kind ∉ op :: rest ↔ op ≠ .reset kind ∧ .reset kind ∉ rest := by
      rw [List.mem_cons, not_or, eq_comm]
    rw [hafter, ih, mem_shown_perform_iff l op rest, history, hreset]
    constructor
    · rintro (⟨e, he, hqueued⟩ | ⟨hqueued | ⟨hshown, hop⟩, hrest⟩)
      · exact Or.inl ⟨e, List.mem_cons_of_mem _ he, hqueued⟩
      · exact Or.inl ⟨⟨l, op, rest⟩, List.mem_cons_self, hqueued, hrest⟩
      · exact Or.inr ⟨hshown, hop, hrest⟩
    · rintro (⟨e, he, hqueued, hlater⟩ | ⟨hshown, hop, hrest⟩)
      · rcases List.mem_cons.mp he with rfl | he
        · exact Or.inr ⟨Or.inl hqueued, hlater⟩
        · exact Or.inl ⟨e, he, hqueued, hlater⟩
      · exact Or.inr ⟨Or.inr ⟨hshown, hop⟩, hrest⟩

/-- After a run of a new latch a kind is open if it was never dismissed, and
    reset after each notice of it that was queued. -/
theorem isOpen_after_iff (ops : List Operation) (kind : Kind) :
    (after new ops).isOpen kind = true ↔
      .dismiss kind ∉ ops ∧
        ∀ e ∈ history new ops, ∀ n, e.queued? = some n → n.kind = kind → .reset kind ∈ e.later := by
  have hdismissed : kind ∈ (after new ops).dismissed ↔ .dismiss kind ∈ ops := by
    simp [mem_dismissed_after_iff, new]
  have hshown : kind ∈ (after new ops).shown ↔
      ∃ e ∈ history new ops, (∃ n, e.queued? = some n ∧ n.kind = kind) ∧
        .reset kind ∉ e.later := by
    rw [mem_shown_after_iff]
    exact or_iff_left fun h => List.not_mem_nil h.1
  rw [isOpen_iff, hdismissed, hshown]
  refine and_congr_right fun _ => ⟨?_, ?_⟩
  · intro hnone e he n hqueued hkind
    exact Decidable.byContradiction fun hreset => hnone ⟨e, he, ⟨n, hqueued, hkind⟩, hreset⟩
  · rintro hall ⟨e, he, ⟨n, hqueued, hkind⟩, hreset⟩
    exact hreset (hall e he n hqueued hkind)

/-! ## Counting -/

/-- The notices of a kind that a run queues. -/
def queuedOf (kind : Kind) (events : List Event) : List Notice :=
  (events.filterMap Event.queued?).filter (·.kind == kind)

theorem queuedOf_history_cons (kind : Kind) (l : Latch) (op : Operation) (rest : List Operation) :
    queuedOf kind (history l (op :: rest)) =
      (Event.queued? ⟨l, op, rest⟩).toList.filter (·.kind == kind) ++
        queuedOf kind (history (l.perform op).2 rest) := by
  rw [history, queuedOf, List.filterMap_cons]
  cases Event.queued? ⟨l, op, rest⟩ with
  | none => rfl
  | some n => exact List.filter_append [n] _

/-- An event queues a notice only if its kind is open. -/
theorem isOpen_of_queued? {e : Event} {n : Notice} (h : e.queued? = some n) :
    e.operation = .raise n ∧ e.before.isOpen n.kind = true := by
  obtain ⟨l, op, later⟩ := e
  cases op with
  | raise m =>
    cases hopen : l.isOpen m.kind with
    | true =>
      simp only [Event.queued?, Event.response, perform, hopen, Option.some.injEq] at h
      exact ⟨by rw [h], h ▸ hopen⟩
    | false => simp [Event.queued?, Event.response, perform, hopen] at h
  | dismiss k => simp [Event.queued?] at h
  | reset k => simp [Event.queued?] at h
  | isDismissed k => simp [Event.queued?] at h
  | drain => simp [Event.queued?] at h

/-- Each notice of a kind but the first needs a reset before it; a kind that
    is shown has had its first. -/
theorem length_queuedOf_le (kind : Kind) (l : Latch) (ops : List Operation) :
    (queuedOf kind (history l ops)).length + (if kind ∈ l.shown then 1 else 0) ≤
      1 + ops.count (.reset kind) := by
  induction ops generalizing l with
  | nil =>
    rw [history, queuedOf, List.filterMap_nil, List.filter_nil, List.length_nil, List.count_nil]
    split <;> omega
  | cons op rest ih =>
    have hrest := ih (l.perform op).2
    have hstep := mem_shown_perform_iff l op rest kind
    rw [queuedOf_history_cons, List.length_append]
    cases hqueued : Event.queued? ⟨l, op, rest⟩ with
    | none =>
      simp only [hqueued, reduceCtorEq, false_and, exists_false, false_or] at hstep
      simp only [Option.toList_none, List.filter_nil, List.length_nil]
      by_cases hop : op = .reset kind
      · -- the reset makes up for the kind being closed before it
        subst hop
        rw [List.count_cons_self]
        have hshown : (if kind ∈ l.shown then 1 else 0) ≤ 1 := by split <;> omega
        omega
      · rw [List.count_cons_of_ne hop]
        simp only [hstep, ne_eq, hop, not_false_eq_true, and_true] at hrest
        omega
    | some n =>
      obtain ⟨rfl, hopen⟩ := isOpen_of_queued? hqueued
      simp only [hqueued, Option.some.injEq, ne_eq, reduceCtorEq, not_false_eq_true, and_true,
        exists_eq_left'] at hstep
      rw [List.count_cons_of_ne (by simp)]
      by_cases hkind : n.kind = kind
      · subst hkind
        have hclosed : n.kind ∉ l.shown := ((isOpen_iff l n.kind).mp hopen).2
        rw [if_pos (hstep.mpr (Or.inl rfl))] at hrest
        rw [if_neg hclosed]
        simp only [Option.toList_some, beq_self_eq_true, List.filter_cons_of_pos, List.filter_nil,
          List.length_singleton]
        omega
      · simp only [hstep, hkind, false_or] at hrest
        simp only [Option.toList_some, hkind, beq_iff_eq, not_false_eq_true,
          List.filter_cons_of_neg, List.filter_nil, List.length_nil]
        omega

/-- Nothing is queued of a kind that was dismissed. -/
theorem queuedOf_of_mem_dismissed {kind : Kind} {l : Latch} (h : kind ∈ l.dismissed)
    (ops : List Operation) : queuedOf kind (history l ops) = [] := by
  induction ops generalizing l with
  | nil => rfl
  | cons op rest ih =>
    have hstill : kind ∈ (l.perform op).2.dismissed :=
      (mem_dismissed_perform_iff l op kind).mpr (Or.inr h)
    rw [queuedOf_history_cons, ih hstill, List.append_nil, List.filter_eq_nil_iff]
    intro n hn hkind
    have hopen := (isOpen_of_queued? (Option.mem_toList.mp hn)).2
    rw [beq_iff_eq.mp hkind] at hopen
    exact ((isOpen_iff l kind).mp hopen).1 h

/-! ## The queue -/

/-- What the events of a run hand out, in order. -/
def drainedBy (events : List Event) : List Notice :=
  events.flatMap Event.drained

theorem staysQueued_drain (kind : Kind) (rest : List Operation) :
    staysQueued kind (.drain :: rest) = true := by
  simp [staysQueued]

theorem staysQueued_dismiss (kind k : Kind) (rest : List Operation) :
    staysQueued kind (.dismiss k :: rest) = (kind != k && staysQueued kind rest) := by
  by_cases h : kind = k <;> simp [staysQueued, h]

/-- Only draining and dismissing touch what is in the queue. -/
theorem filter_staysQueued_cons {op : Operation} (hdrain : op ≠ .drain)
    (hdismiss : ∀ k, op ≠ .dismiss k) (ns : List Notice) (rest : List Operation) :
    ns.filter (staysQueued ·.kind (op :: rest)) = ns.filter (staysQueued ·.kind rest) := by
  refine List.filter_congr fun n _ => ?_
  have hne : Operation.dismiss n.kind ≠ op := fun h => hdismiss n.kind h.symm
  simp [staysQueued, hdrain, hne]

/-- What an operation hands out and leaves in the queue, less what is dismissed
    before the next drain, is what was in the queue, less the same, with the
    notice that it queues behind. -/
theorem drained_append_queue (l : Latch) (op : Operation) (rest : List Operation) :
    Event.drained ⟨l, op, rest⟩ ++ (l.perform op).2.pending.filter (staysQueued ·.kind rest) =
      l.pending.filter (staysQueued ·.kind (op :: rest)) ++
        (Event.kept? ⟨l, op, rest⟩).toList := by
  cases op with
  | raise n =>
    rw [filter_staysQueued_cons (by simp) (by simp)]
    cases hopen : l.isOpen n.kind with
    | true =>
      have hkept : (Event.kept? ⟨l, .raise n, rest⟩).toList =
          [n].filter (staysQueued ·.kind rest) := by
        cases hstays : staysQueued n.kind rest <;>
          simp [Event.kept?, Event.queued?, Event.response, perform, hopen, hstays]
      have hpending : (l.raise n).pending = l.pending ++ [n] := by rw [raise, if_pos hopen]
      rw [hkept, ← List.filter_append, ← hpending]
      rfl
    | false =>
      simp [Event.drained, Event.response, Event.kept?, Event.queued?, perform, raise, hopen]
  | dismiss k =>
    have hstays : l.pending.filter (staysQueued ·.kind (.dismiss k :: rest)) =
        (l.dismiss k).pending.filter (staysQueued ·.kind rest) := by
      rw [dismiss, List.filter_filter]
      exact List.filter_congr fun n _ => by rw [staysQueued_dismiss, Bool.and_comm]
    rw [hstays]
    exact (List.append_nil _).symm
  | reset k =>
    rw [filter_staysQueued_cons (by simp) (by simp)]
    exact (List.append_nil _).symm
  | isDismissed k =>
    rw [filter_staysQueued_cons (by simp) (by simp)]
    exact (List.append_nil _).symm
  | drain =>
    have hstays : l.pending.filter (staysQueued ·.kind (.drain :: rest)) = l.pending :=
      List.filter_eq_self.mpr fun n _ => staysQueued_drain n.kind rest
    rw [hstays]
    rfl

/-- What a run hands out and leaves in the queue is what the queue held and
    what the run queued, less what was dismissed before it was handed out. -/
theorem drained_append_pending (l : Latch) (ops : List Operation) :
    drainedBy (history l ops) ++ (after l ops).pending =
      l.pending.filter (staysQueued ·.kind ops) ++ (history l ops).filterMap Event.kept? := by
  induction ops generalizing l with
  | nil =>
    have hall : l.pending.filter (staysQueued ·.kind []) = l.pending :=
      List.filter_eq_self.mpr fun _ _ => rfl
    rw [hall]
    exact (List.append_nil _).symm
  | cons op rest ih =>
    have hafter : after l (op :: rest) = after (l.perform op).2 rest := rfl
    have hkept : (history l (op :: rest)).filterMap Event.kept? =
        (Event.kept? ⟨l, op, rest⟩).toList ++
          (history (l.perform op).2 rest).filterMap Event.kept? := by
      rw [history, List.filterMap_cons]
      cases Event.kept? ⟨l, op, rest⟩ <;> rfl
    rw [hafter, history, drainedBy, List.flatMap_cons, List.append_assoc, ← drainedBy, ih,
      ← List.append_assoc, drained_append_queue, List.append_assoc, ← hkept, history]

/-! ## Any run of a new latch -/

/-- After any run of a new latch, raising a notice succeeds just if its kind
    was never dismissed and was reset after each success so far. So a kind has
    at most one success more than it has resets, and none once it is dismissed;
    and what was drained, with what is still queued, are the successes in
    order, less those that were not drained before their kind was dismissed. -/
theorem latch_told_from_history (ops : List Operation) :
    (∀ n, ((after new ops).perform (.raise n)).1 = .raised true ↔
      .dismiss n.kind ∉ ops ∧
        ∀ e ∈ history new ops, ∀ m, e.queued? = some m → m.kind = n.kind →
          .reset n.kind ∈ e.later) ∧
    (∀ kind, (queuedOf kind (history new ops)).length ≤ 1 + ops.count (.reset kind)) ∧
    (∀ kind later, queuedOf kind (history (after new (ops ++ [.dismiss kind])) later) = []) ∧
    drainedBy (history new ops) ++ (after new ops).pending =
      (history new ops).filterMap Event.kept? := by
  refine ⟨?_, ?_, ?_, ?_⟩
  · intro n
    rw [← isOpen_after_iff, perform, Response.raised.injEq]
  · intro kind
    exact Nat.le_trans (Nat.le_add_right _ _) (length_queuedOf_le kind new ops)
  · intro kind later
    have hmem : kind ∈ (after new (ops ++ [.dismiss kind])).dismissed :=
      (mem_dismissed_after_iff new _ kind).mpr (Or.inl (by simp))
    exact queuedOf_of_mem_dismissed hmem later
  · exact drained_append_pending new ops

end CompilerRemarks.Latch
