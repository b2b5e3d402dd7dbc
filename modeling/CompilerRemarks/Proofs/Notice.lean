/-
  CompilerRemarks.Proofs.Notice

  What a latch queues of notices that are raised one after the other: of each
  kind the first (`oncePerKind`), if the kind was open (`pending_raiseAll`).
-/
import CompilerRemarks.Notice

namespace CompilerRemarks

namespace Notice

/-! ## The first of each kind -/

/-- The first notice of each kind. -/
def oncePerKind : List Notice → List Notice
  | [] => []
  | n :: rest => n :: (oncePerKind rest).filter (·.kind != n.kind)

theorem mem_of_mem_oncePerKind {n : Notice} {ns : List Notice} (h : n ∈ oncePerKind ns) :
    n ∈ ns := by
  induction ns with
  | nil => exact h
  | cons m rest ih =>
    rcases List.mem_cons.mp h with rfl | hrest
    · exact List.mem_cons_self
    · exact List.mem_cons_of_mem m (ih (List.mem_filter.mp hrest).1)

/-- Kinds that are shown already are not shown again. -/
theorem oncePerKind_append (ns more : List Notice) :
    oncePerKind (ns ++ more) =
      oncePerKind ns ++ (oncePerKind more).filter fun m => ns.all (m.kind != ·.kind) := by
  induction ns with
  | nil => exact (List.filter_eq_self.mpr fun _ _ => rfl).symm
  | cons n rest ih =>
    rw [List.cons_append, oncePerKind, ih, oncePerKind, List.filter_append, List.filter_filter,
      List.cons_append]
    congr 2

theorem oncePerKind_append_of_disjoint {ns more : List Notice}
    (h : ∀ m ∈ more, ∀ n ∈ ns, m.kind ≠ n.kind) :
    oncePerKind (ns ++ more) = oncePerKind ns ++ oncePerKind more := by
  have hkept :
      (oncePerKind more).filter (fun m => ns.all (m.kind != ·.kind)) = oncePerKind more := by
    rw [List.filter_eq_self]
    intro m hm
    rw [List.all_eq_true]
    intro n hn
    exact bne_iff_ne.mpr (h m (mem_of_mem_oncePerKind hm) n hn)
  rw [oncePerKind_append, hkept]

theorem oncePerKind_of_same_kind {kind : Kind} {ns : List Notice} (h : ∀ n ∈ ns, n.kind = kind) :
    oncePerKind ns = ns.head?.toList := by
  cases ns with
  | nil => rfl
  | cons n rest =>
    have hrest : (oncePerKind rest).filter (·.kind != n.kind) = [] := by
      rw [List.filter_eq_nil_iff]
      intro m hm
      have hmem : m ∈ n :: rest := List.mem_cons_of_mem n (mem_of_mem_oncePerKind hm)
      rw [h m hmem, h n List.mem_cons_self]
      simp
    rw [oncePerKind, hrest]
    rfl

end Notice

namespace Latch

open Notice

/-! ## Raising -/

/-- Raises notices one after the other. -/
def raiseAll (l : Latch) (ns : List Notice) : Latch :=
  ns.foldl raise l

theorem raiseAll_cons (l : Latch) (n : Notice) (rest : List Notice) :
    l.raiseAll (n :: rest) = (l.raise n).raiseAll rest :=
  rfl

/-- A kind that was raised is closed. -/
theorem isOpen_raise (l : Latch) (n : Notice) (kind : Kind) :
    (l.raise n).isOpen kind = (l.isOpen kind && kind != n.kind) := by
  rw [raise]
  by_cases hkind : kind = n.kind
  · subst hkind
    cases hopen : l.isOpen n.kind with
    | true => simp [isOpen]
    | false => simpa using hopen
  · have hne : (kind != n.kind) = true := bne_iff_ne.mpr hkind
    rw [hne, Bool.and_true]
    split
    · simp [isOpen, hkind]
    · rfl

theorem pending_raise (l : Latch) (n : Notice) :
    (l.raise n).pending = l.pending ++ if l.isOpen n.kind then [n] else [] := by
  rw [raise]
  split
  · rfl
  · rw [List.append_nil]

/-- A latch queues the first notice of each open kind. -/
theorem pending_raiseAll (l : Latch) (ns : List Notice) :
    (l.raiseAll ns).pending = l.pending ++ (oncePerKind ns).filter (l.isOpen ·.kind) := by
  induction ns generalizing l with
  | nil => exact (List.append_nil _).symm
  | cons n rest ih =>
    have hrest : (oncePerKind rest).filter ((l.raise n).isOpen ·.kind) =
        ((oncePerKind rest).filter (·.kind != n.kind)).filter (l.isOpen ·.kind) := by
      rw [List.filter_filter]
      exact List.filter_congr fun m _ => isOpen_raise l n m.kind
    rw [raiseAll_cons, ih, pending_raise, hrest, oncePerKind, List.filter_cons, List.append_assoc]
    split <;> rfl

/-- A new latch queues the first notice of each kind. -/
theorem pending_raiseAll_new (ns : List Notice) : (new.raiseAll ns).pending = oncePerKind ns := by
  rw [pending_raiseAll]
  exact List.filter_eq_self.mpr fun _ _ => rfl

end Latch

end CompilerRemarks
