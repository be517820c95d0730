import Glowforge.Foundation.System

/-! A labelled system with a ledger. Each step enters in it what was done, and none reads
it: a run of the system keeps the record that a statement about the run goes by. -/
namespace Glowforge.Foundation

structure Logged (σ γ : Type*) where
  state : σ
  ledger : γ

namespace Logged

variable {σ α ε γ : Type*} {next : σ → α → Option (List ε × σ)} {enter : γ → σ → α → List ε × σ → γ}

def step (next : σ → α → Option (List ε × σ)) (enter : γ → σ → α → List ε × σ → γ)
    (L : Logged σ γ) (a : α) : Option (List ε × Logged σ γ) :=
  (next L.state a).map fun r => (r.1, ⟨r.2, enter L.ledger L.state a r⟩)

theorem step_state {L : Logged σ γ} {a : α} {r : List ε × Logged σ γ}
    (h : L.step next enter a = some r) : ∃ s, next L.state a = some (r.1, s) ∧
      r.2 = ⟨s, enter L.ledger L.state a (r.1, s)⟩ := by
  obtain ⟨⟨out, s⟩, hnext, rfl⟩ := Option.map_eq_some_iff.mp h
  exact ⟨s, hnext, rfl⟩

/-- The ledger changes no run. -/
theorem execute_state {as : List α} {L : Logged σ γ} {r : List ε × Logged σ γ}
    (h : System.execute (step next enter) as L = some r) :
    System.execute next as L.state = some (r.1, r.2.state) := by
  induction as generalizing L r with
  | nil =>
      cases h
      rfl
  | cons a as ih =>
      obtain ⟨r₁, r₂, hfirst, hrest, rfl⟩ := System.execute_cons h
      obtain ⟨s, hnext, hr₁⟩ := step_state hfirst
      have htail := ih hrest
      rw [hr₁] at htail
      simp [System.execute, hnext, htail]

theorem along_state {guard : σ → α → Prop} {as : List α} {L : Logged σ γ}
    (h : System.Along next guard as L.state) :
    System.Along (step next enter) (fun L a => guard L.state a) as L := by
  induction as generalizing L with
  | nil => trivial
  | cons a as ih =>
      refine ⟨h.1, ?_⟩
      intro r hr
      obtain ⟨s, hnext, hr'⟩ := step_state hr
      apply ih
      rw [hr']
      exact h.2 _ hnext

end Logged

end Glowforge.Foundation
