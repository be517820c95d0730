import Glowforge.Foundation.Interleaving

/-! A mutex in the shared state of a pool: if each step of a thread takes it only while
it is free and gives it up only while it holds it, no two threads hold it at once. -/
namespace Glowforge.Foundation.Pool

variable {ι π σ μ β ε : Type*}

/-- How one step of thread `i` uses a mutex: the owner and whether the thread holds it,
before and after. -/
inductive MutexUse (i : ι) : Option ι → Bool → Option ι → Bool → Prop where
  | keep {owner : Option ι} {holds : Bool} : MutexUse i owner holds owner holds
  | acquire : MutexUse i none false (some i) true
  | release {owner : Option ι} : MutexUse i owner true none false

def Owned (owner : σ → Option ι) (holds : π → Bool) (P : Pool ι π σ) : Prop :=
  ∀ i, holds (P.threads i) = true → owner P.shared = some i

variable {owner : σ → Option ι} {holds : π → Bool} {P : Pool ι π σ}

theorem Owned.exclusive (h : P.Owned owner holds) {i j : ι} (hi : holds (P.threads i) = true)
    (hj : holds (P.threads j) = true) : i = j := by
  have howner := (h i hi).symm.trans (h j hj)
  injection howner

variable [DecidableEq ι] {next : ι → σ → π → μ → Option (List ε × σ × π)} {around : σ → β → Option (List ε × σ)}

theorem Owned.step {a : PoolAction ι μ β} {r : List ε × Pool ι π σ} (h : P.Owned owner holds)
    (hthread : ∀ i s p move o s' p', next i s p move = some (o, s', p') →
      MutexUse i (owner s) (holds p) (owner s') (holds p'))
    (haround : ∀ s event o s', around s event = some (o, s') → owner s' = owner s)
    (hstep : P.step next around a = some r) : r.2.Owned owner holds := by
  cases a with
  | thread i move =>
      obtain ⟨s, p, hnext, hr⟩ := step_thread hstep
      have huse := hthread i P.shared (P.threads i) move r.1 s p hnext
      rw [hr]
      intro j hj
      by_cases hji : j = i
      · subst hji
        have hj' : holds p = true := by
          change holds (Function.update P.threads j p j) = true at hj
          rwa [Function.update_self] at hj
        rw [hj'] at huse
        generalize hold : owner P.shared = before at huse
        generalize owner s = after at huse
        generalize hbefore : holds (P.threads j) = held at huse
        cases huse with
        | keep => exact hold.symm.trans (h j hbefore)
        | acquire => rfl
      · have hj' : holds (P.threads j) = true := by
          change holds (Function.update P.threads i p j) = true at hj
          rwa [Function.update_of_ne hji] at hj
        have howner := h j hj'
        rw [howner] at huse
        generalize owner s = after at huse
        generalize hbefore : holds (P.threads i) = held at huse
        generalize holds p = held' at huse
        cases huse with
        | keep => rfl
        | release => exact absurd (h.exclusive hj' hbefore) hji
  | surround event =>
      obtain ⟨s, haround', hr⟩ := step_surround hstep
      rw [hr]
      intro j hj
      exact (haround P.shared event r.1 s haround').trans (h j hj)

end Glowforge.Foundation.Pool
