import Mathlib.Algebra.BigOperators.Group.Finset.Basic
import Mathlib.Algebra.BigOperators.Intervals
import Mathlib.Logic.Function.Iterate
import Mathlib.Tactic.Abel

/-! A head on a tape of quantities. On the way forward it adds up what is under it, on the
way back it takes that away, each time before it moves: a cell it turns on is counted twice
or not at all, and no other is. -/
namespace Glowforge.Foundation

variable {G : Type*} [AddCommGroup G]

def primitive (f : ℤ → G) : ℤ → G
  | .ofNat n => ∑ i ∈ Finset.range n, f i
  | .negSucc n => -∑ i ∈ Finset.range (n + 1), f (.negSucc i)

theorem primitive_succ (f : ℤ → G) (k : ℤ) : primitive f (k + 1) = primitive f k + f k := by
  cases k with
  | ofNat n => exact Finset.sum_range_succ (fun i : ℕ => f i) n
  | negSucc n =>
      cases n with
      | zero =>
          change (0 : G) = -∑ i ∈ Finset.range 1, f (.negSucc i) + f (.negSucc 0)
          rw [Finset.sum_range_one, neg_add_cancel]
      | succ n =>
          change -∑ i ∈ Finset.range (n + 1), f (.negSucc i) =
            -∑ i ∈ Finset.range (n + 1 + 1), f (.negSucc i) + f (.negSucc (n + 1))
          rw [Finset.sum_range_succ _ (n + 1)]
          abel

structure Head (G : Type*) where
  pos : ℤ
  sum : G
  back : Bool

namespace Head

variable (f : ℤ → G) (h : Head G)

def advance : Head G :=
  if h.back then { h with pos := h.pos - 1, sum := h.sum - f h.pos }
  else { h with pos := h.pos + 1, sum := h.sum + f h.pos }

def turn (back : Bool) (h : Head G) : Head G := { h with back := back }

/-- Where the cells begin that a head has behind it: on the way back, after the one under it. -/
def edge (back : Bool) (pos : ℤ) : ℤ := if back then pos + 1 else pos

/-- The sum, less that of the cells the head has behind it. -/
def excess : G := h.sum - primitive f (edge h.back h.pos)

/-- What a turn puts in: the cell under the head, if the direction does change. -/
def turnCost (was back : Bool) (cell : G) : G :=
  if back = was then 0 else if back then -cell else cell

@[simp] theorem advance_back : (h.advance f).back = h.back := by
  unfold advance
  split <;> rfl

theorem excess_advance : (h.advance f).excess f = h.excess f := by
  unfold excess advance edge
  cases hback : h.back with
  | true =>
      simp only [if_true, sub_add_cancel]
      rw [primitive_succ f h.pos]
      abel
  | false =>
      simp only [Bool.false_eq_true, if_false]
      rw [primitive_succ f h.pos]
      abel

theorem excess_turn (back : Bool) :
    (h.turn back).excess f = h.excess f + turnCost h.back back (f h.pos) := by
  unfold excess turn edge turnCost
  cases hback : h.back <;> cases back <;> simp only [Bool.false_eq_true, Bool.true_eq_false,
    if_true, if_false, primitive_succ f h.pos] <;> abel

theorem excess_iterate (n : ℕ) : ((advance f)^[n] h).excess f = h.excess f := by
  induction n with
  | zero => rfl
  | succ n ih => rw [Function.iterate_succ_apply', excess_advance, ih]

@[simp] theorem iterate_back (n : ℕ) : ((advance f)^[n] h).back = h.back := by
  induction n with
  | zero => rfl
  | succ n ih => rw [Function.iterate_succ_apply', advance_back, ih]

theorem iterate_pos (n : ℕ) :
    ((advance f)^[n] h).pos = h.pos + n * (if h.back then -1 else 1) := by
  induction n with
  | zero => simp
  | succ n ih =>
      rw [Function.iterate_succ_apply', advance, iterate_back]
      cases hback : h.back <;> simp [hback] at ih ⊢ <;> omega

end Head

end Glowforge.Foundation
