import Mathlib.Data.List.Basic

/-! FIFO queues of bytes, or of anything: pushes at the back, pops at the front, and
resets. Whatever was popped since the last reset is a prefix of what was pushed. -/
namespace Glowforge.Foundation.Fifo

variable {α : Type*}

inductive Op (α : Type*) where
  | push (xs : List α)
  | pop (xs : List α)
  | reset

/-- The contents before and after an operation. -/
inductive Step : List α → Op α → List α → Prop where
  | push (q xs : List α) : Step q (.push xs) (q ++ xs)
  | pop (xs q : List α) : Step (xs ++ q) (.pop xs) q
  | reset (q : List α) : Step q .reset []

inductive Run : List α → List (Op α) → List α → Prop where
  | nil (q : List α) : Run q [] q
  | cons {q q' q'' : List α} {op : Op α} {ops : List (Op α)} :
      Step q op q' → Run q' ops q'' → Run q (op :: ops) q''

theorem Run.append {q q' q'' : List α} {ops ops' : List (Op α)} (first : Run q ops q')
    (second : Run q' ops' q'') : Run q (ops ++ ops') q'' := by
  induction first with
  | nil q => exact second
  | cons hstep _ ih => exact .cons hstep (ih second)

theorem Step.run {q q' : List α} {op : Op α} (h : Step q op q') : Run q [op] q' :=
  .cons h (.nil q')

theorem Step.pop_take (q : List α) (n : Nat) : Step q (.pop (q.take n)) (q.drop n) := by
  have h := Step.pop (q.take n) (q.drop n)
  rwa [List.take_append_drop] at h

/-- What was pushed and what was popped since the last reset. -/
structure Ledger (α : Type*) where
  pushed : List α
  popped : List α

def Ledger.empty : Ledger α := ⟨[], []⟩

def Ledger.record (l : Ledger α) : Op α → Ledger α
  | .push xs => { l with pushed := l.pushed ++ xs }
  | .pop xs => { l with popped := l.popped ++ xs }
  | .reset => .empty

def ledger (ops : List (Op α)) : Ledger α := ops.foldl Ledger.record .empty

theorem Step.conserves {q q' : List α} {op : Op α} {l : Ledger α} (h : Step q op q')
    (hl : l.pushed = l.popped ++ q) : (l.record op).pushed = (l.record op).popped ++ q' := by
  cases h with
  | push q xs =>
      simp only [Ledger.record]
      rw [hl, List.append_assoc]
  | pop xs q =>
      simp only [Ledger.record]
      rw [hl, List.append_assoc]
  | reset q => rfl

theorem Run.conserves {q q' : List α} {ops : List (Op α)} {l : Ledger α} (h : Run q ops q')
    (hl : l.pushed = l.popped ++ q) :
    (ops.foldl Ledger.record l).pushed = (ops.foldl Ledger.record l).popped ++ q' := by
  induction h generalizing l with
  | nil q => exact hl
  | cons hstep _ ih => exact ih (hstep.conserves hl)

theorem Run.popped_prefix {q : List α} {ops : List (Op α)} (h : Run [] ops q) :
    (ledger ops).popped <+: (ledger ops).pushed :=
  ⟨q, (h.conserves (l := .empty) rfl).symm⟩

end Glowforge.Foundation.Fifo
