import Glowforge.Foundation.Engine
import Glowforge.Foundation.System

/-! One engine in the place of another. It may leave out steps of the other that put nothing
out, and must otherwise answer each in kind: its turns, and the sessions made of them, are
then the other's, in no more steps. -/
namespace Glowforge.Foundation

variable {ε σ τ α : Type*}

namespace Engine

/-- `t` answers what the engine it stands for has done: not at all, if that was silent. -/
inductive Answers (step' : τ → Option (Signal ε τ)) (R : σ → τ → Prop) (t : τ) :
    Signal ε σ → Prop where
  | silent {s' : σ} : R s' t → Answers step' R t (.next [] s')
  | next {out : List ε} {s' : σ} {t' : τ} :
      step' t = some (.next out t') → R s' t' → Answers step' R t (.next out s')
  | yield {s' : σ} {t' : τ} :
      step' t = some (.yield t') → R s' t' → Answers step' R t (.yield s')

def Refines (step : σ → Option (Signal ε σ)) (step' : τ → Option (Signal ε τ))
    (R : σ → τ → Prop) : Prop :=
  ∀ s t sig, R s t → step s = some sig → Answers step' R t sig

variable {step : σ → Option (Signal ε σ)} {step' : τ → Option (Signal ε τ)} {R : σ → τ → Prop}

theorem exec_of_refines (href : Refines step step' R) {fuel : Nat} {s : σ} {t : τ}
    {r : List ε × σ} (hR : R s t) (h : exec step fuel s = some r) :
    ∃ t', exec step' fuel t = some (r.1, t') ∧ R r.2 t' := by
  induction fuel generalizing s t r with
  | zero => contradiction
  | succ fuel ih =>
      unfold exec at h
      cases hstep : step s with
      | none => rw [hstep] at h; contradiction
      | some sig =>
          rw [hstep] at h
          cases href s t sig hR hstep with
          | silent hR' =>
              obtain ⟨q, hq, rfl⟩ := Option.map_eq_some_iff.mp h
              obtain ⟨t', hexec, hend⟩ := ih hR' hq
              exact ⟨t', exec_mono hexec (Nat.le_succ fuel), hend⟩
          | next hstep' hR' =>
              obtain ⟨q, hq, rfl⟩ := Option.map_eq_some_iff.mp h
              obtain ⟨t', hexec, hend⟩ := ih hR' hq
              refine ⟨t', ?_, hend⟩
              simp [exec, hstep', hexec]
          | yield hstep' hR' =>
              cases h
              refine ⟨_, ?_, hR'⟩
              simp [exec, hstep']

end Engine

namespace System

theorem execute_cons_some {step : σ → α → Option (List ε × σ)} {a : α} {as : List α} {s : σ}
    {r₁ r₂ : List ε × σ} (hstep : step s a = some r₁) (hrest : execute step as r₁.2 = some r₂) :
    execute step (a :: as) s = some (r₁.1 ++ r₂.1, r₂.2) := by
  unfold execute
  rw [hstep, Option.bind_some, hrest]
  rfl

/-- Actions that keep two systems together, output included, keep whole executions so. -/
theorem execute_of_refines {step : σ → α → Option (List ε × σ)} {step' : τ → α → Option (List ε × τ)}
    {R : σ → τ → Prop}
    (href : ∀ s t a r, R s t → step s a = some r → ∃ t', step' t a = some (r.1, t') ∧ R r.2 t')
    {as : List α} {s : σ} {t : τ} {r : List ε × σ} (hR : R s t) (h : execute step as s = some r) :
    ∃ t', execute step' as t = some (r.1, t') ∧ R r.2 t' := by
  induction as generalizing s t r with
  | nil =>
      cases h
      exact ⟨t, rfl, hR⟩
  | cons a as ih =>
      obtain ⟨r₁, r₂, hstep, hrest, rfl⟩ := execute_cons h
      obtain ⟨t₁, hstep', hR₁⟩ := href s t a r₁ hR hstep
      obtain ⟨t₂, hrest', hR₂⟩ := ih hR₁ hrest
      exact ⟨t₂, execute_cons_some hstep' hrest', hR₂⟩

end System

end Glowforge.Foundation
