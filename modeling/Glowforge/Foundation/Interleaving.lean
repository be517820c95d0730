import Glowforge.Foundation.System
import Mathlib.Logic.Function.Basic

/-! Threads over a shared state. A step is taken by one thread or by the surroundings;
assertions about the threads survive the steps of others when each of those leaves
them alone. -/
namespace Glowforge.Foundation

structure Pool (ι π σ : Type*) where
  shared : σ
  threads : ι → π

inductive PoolAction (ι μ β : Type*) where
  | thread (i : ι) (move : μ)
  | surround (event : β)

namespace Pool

variable {ι π σ μ β ε : Type*} [DecidableEq ι]

/-- One step: `next` moves a thread, `around` the surroundings. -/
def step (next : ι → σ → π → μ → Option (List ε × σ × π)) (around : σ → β → Option (List ε × σ))
    (P : Pool ι π σ) : PoolAction ι μ β → Option (List ε × Pool ι π σ)
  | .thread i move => (next i P.shared (P.threads i) move).map fun r =>
      (r.1, ⟨r.2.1, Function.update P.threads i r.2.2⟩)
  | .surround event => (around P.shared event).map fun r => (r.1, ⟨r.2, P.threads⟩)

variable {next : ι → σ → π → μ → Option (List ε × σ × π)} {around : σ → β → Option (List ε × σ)}

theorem step_thread {P : Pool ι π σ} {i : ι} {move : μ} {r : List ε × Pool ι π σ}
    (h : P.step next around (.thread i move) = some r) :
    ∃ s p, next i P.shared (P.threads i) move = some (r.1, s, p) ∧
      r.2 = ⟨s, Function.update P.threads i p⟩ := by
  obtain ⟨⟨out, s, p⟩, hnext, rfl⟩ := Option.map_eq_some_iff.mp h
  exact ⟨s, p, hnext, rfl⟩

theorem step_surround {P : Pool ι π σ} {event : β} {r : List ε × Pool ι π σ}
    (h : P.step next around (.surround event) = some r) :
    ∃ s, around P.shared event = some (r.1, s) ∧ r.2 = ⟨s, P.threads⟩ := by
  obtain ⟨⟨out, s⟩, haround, rfl⟩ := Option.map_eq_some_iff.mp h
  exact ⟨s, haround, rfl⟩

/-- What holds of the shared state, and of each thread against it. -/
structure Holds (G : σ → Prop) (L : σ → ι → π → Prop) (P : Pool ι π σ) : Prop where
  shared : G P.shared
  threads : ∀ i, L P.shared i (P.threads i)

/-- A step keeps the assertions if it establishes those of the thread that takes it and
does not interfere with those of the others. -/
theorem Holds.step {G : σ → Prop} {L : σ → ι → π → Prop} {P : Pool ι π σ}
    {a : PoolAction ι μ β} {r : List ε × Pool ι π σ} (h : P.Holds G L)
    (hstep : P.step next around a = some r)
    (hthread : ∀ i move s p, a = .thread i move →
      next i P.shared (P.threads i) move = some (r.1, s, p) →
      G s ∧ L s i p ∧ ∀ j, j ≠ i → L P.shared j (P.threads j) → L s j (P.threads j))
    (haround : ∀ event s, a = .surround event → around P.shared event = some (r.1, s) →
      G s ∧ ∀ j, L P.shared j (P.threads j) → L s j (P.threads j)) : r.2.Holds G L := by
  cases a with
  | thread i move =>
      obtain ⟨s, p, hnext, hr⟩ := step_thread hstep
      obtain ⟨hG, hL, hothers⟩ := hthread i move s p rfl hnext
      rw [hr]
      refine ⟨hG, ?_⟩
      intro j
      by_cases hj : j = i
      · subst hj
        change L s j (Function.update P.threads j p j)
        rwa [Function.update_self]
      · change L s j (Function.update P.threads i p j)
        rw [Function.update_of_ne hj]
        exact hothers j hj (h.threads j)
  | surround event =>
      obtain ⟨s, hstep', hr⟩ := step_surround hstep
      obtain ⟨hG, hothers⟩ := haround event s rfl hstep'
      rw [hr]
      exact ⟨hG, fun j => hothers j (h.threads j)⟩

theorem shared_step {R : List ε → σ → σ → Prop}
    (hthread : ∀ i s p move o s' p', next i s p move = some (o, s', p') → R o s s')
    (haround : ∀ s event o s', around s event = some (o, s') → R o s s')
    {P : Pool ι π σ} {a : PoolAction ι μ β} {r : List ε × Pool ι π σ}
    (hstep : P.step next around a = some r) : R r.1 P.shared r.2.shared := by
  cases a with
  | thread i move =>
      obtain ⟨s, p, hnext, hr⟩ := step_thread hstep
      rw [hr]
      exact hthread i P.shared (P.threads i) move r.1 s p hnext
  | surround event =>
      obtain ⟨s, hstep', hr⟩ := step_surround hstep
      rw [hr]
      exact haround P.shared event r.1 s hstep'

end Pool

end Glowforge.Foundation
