import Mathlib.Logic.Function.Iterate

/-! Iterating a function while it has to go on. A measure that falls while it does gives the
first iterate that need not; an invariant that makes it go on does so for good. -/
namespace Glowforge.Foundation

variable {α : Type*} {f : α → α} {I Goes : α → Prop}

theorem iterate_stops (measure : α → Nat)
    (hstep : ∀ a, I a → Goes a → I (f a) ∧ measure (f a) < measure a) {a : α} (ha : I a) :
    ∃ k, (∀ j < k, Goes (f^[j] a)) ∧ I (f^[k] a) ∧ ¬Goes (f^[k] a) := by
  induction hm : measure a using Nat.strongRecOn generalizing a with
  | ind m ih =>
      by_cases hgoes : Goes a
      · obtain ⟨hnext, hless⟩ := hstep a ha hgoes
        obtain ⟨k, hbefore, hinv, hstops⟩ := ih _ (hm ▸ hless) hnext rfl
        refine ⟨k + 1, ?_, hinv, hstops⟩
        rintro (_ | j) hj
        · exact hgoes
        · exact hbefore j (Nat.lt_of_succ_lt_succ hj)
      · exact ⟨0, fun j hj => absurd hj (Nat.not_lt_zero j), ha, hgoes⟩

theorem iterate_goes (hstep : ∀ a, I a → Goes a ∧ I (f a)) {a : α} (ha : I a) (k : Nat) :
    Goes (f^[k] a) :=
  (hstep _ (Function.Iterate.rec I ha (fun b hb => (hstep b hb).2) k)).1

end Glowforge.Foundation
