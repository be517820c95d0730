import Mathlib.Logic.Function.Iterate
import Mathlib.Data.List.Basic

/-! Deterministic engines that compute for a while and then hand control back.
An engine step either carries on, with some output, or yields. `Runs` bounds the
number of steps, so a run is a correctness statement and a time bound at once. -/
namespace Glowforge.Foundation

inductive Signal (ε σ : Type*) where
  | next (out : List ε) (state : σ)
  | yield (state : σ)

def Signal.state {ε σ : Type*} : Signal ε σ → σ
  | .next _ s => s
  | .yield s => s

def Signal.out {ε σ : Type*} : Signal ε σ → List ε
  | .next out _ => out
  | .yield _ => []

namespace Engine

variable {ε σ : Type*} (step : σ → Option (Signal ε σ)) (stop : σ → Bool)

/-- Run until the engine yields, for at most `fuel` steps. -/
def exec : Nat → σ → Option (List ε × σ)
  | 0, _ => none
  | fuel + 1, s =>
      match step s with
      | none => none
      | some (.yield s') => some ([], s')
      | some (.next out s') => (exec fuel s').map fun r => (out ++ r.1, r.2)

/-- Run, through yields as well, until `stop` holds of a state just entered. -/
def execTo : Nat → σ → Option (List ε × σ)
  | 0, _ => none
  | fuel + 1, s =>
      match step s with
      | none => none
      | some sig =>
          if stop sig.state then some (sig.out, sig.state)
          else (execTo fuel sig.state).map fun r => (sig.out ++ r.1, r.2)

/-- Exactly `n` uninterrupted steps, none of them out of a `stop` state. -/
def advance : Nat → σ → Option (List ε × σ)
  | 0, s => some ([], s)
  | n + 1, s =>
      if stop s then none
      else
        match step s with
        | some (.next out s') => (advance n s').map fun r => (out ++ r.1, r.2)
        | _ => none

/-- `Runs n s es s'`: at most `n` uninterrupted steps lead from `s` to `s'`, and none
of them leaves a `stop` state. -/
inductive Runs : Nat → σ → List ε → σ → Prop where
  | refl (n : Nat) (s : σ) : Runs n s [] s
  | head {n : Nat} {s s' s'' : σ} {out es : List ε} :
      stop s = false → step s = some (.next out s') → Runs n s' es s'' →
        Runs (n + 1) s (out ++ es) s''

variable {step stop}

namespace Runs

theorem mono {n k : Nat} {s s' : σ} {es : List ε} (h : Runs step stop n s es s') (hle : n ≤ k) :
    Runs step stop k s es s' := by
  induction h generalizing k with
  | refl n s => exact refl k s
  | head hgo hstep _ ih =>
      obtain ⟨k, rfl⟩ := Nat.exists_eq_succ_of_ne_zero (Nat.ne_of_gt (Nat.zero_lt_of_lt hle))
      exact head hgo hstep (ih (Nat.le_of_succ_le_succ hle))

theorem trans {n k : Nat} {s s' s'' : σ} {es fs : List ε}
    (first : Runs step stop n s es s') (second : Runs step stop k s' fs s'') :
    Runs step stop (n + k) s (es ++ fs) s'' := by
  induction first with
  | refl n s => exact second.mono (Nat.le_add_left k n)
  | @head n s s₁ s₂ out es hgo hstep _ ih =>
      have h := head hgo hstep (ih second)
      rwa [← List.append_assoc, Nat.add_right_comm] at h

theorem unstopped {n : Nat} {s s' : σ} {es : List ε} (h : Runs step stop n s es s') :
    Runs step (fun _ => false) n s es s' := by
  induction h with
  | refl n s => exact refl n s
  | head _ hstep _ ih => exact head rfl hstep ih

end Runs

private theorem runs_of_advance_exact {n : Nat} {s s' : σ} {es : List ε}
    (h : advance step stop n s = some (es, s')) : Runs step stop n s es s' := by
  induction n generalizing s es with
  | zero =>
      cases h
      exact .refl 0 s'
  | succ n ih =>
      unfold advance at h
      split at h
      · contradiction
      · rename_i hgo
        split at h
        · rename_i out s₁ hstep
          obtain ⟨r, hr, heq⟩ := Option.map_eq_some_iff.mp h
          cases heq
          exact .head (Bool.eq_false_iff.mpr hgo) hstep (ih hr)
        · contradiction

theorem runs_of_advance (n : Nat) {k : Nat} {s s' : σ} {es : List ε} (hle : n ≤ k)
    (h : advance step stop n s = some (es, s')) : Runs step stop k s es s' :=
  (runs_of_advance_exact h).mono hle

theorem exec_mono {fuel : Nat} {s : σ} {r : List ε × σ} (h : exec step fuel s = some r)
    {more : Nat} (hle : fuel ≤ more) : exec step more s = some r := by
  induction fuel generalizing s r more with
  | zero => contradiction
  | succ fuel ih =>
      obtain ⟨more, rfl⟩ := Nat.exists_eq_succ_of_ne_zero (Nat.ne_of_gt (Nat.zero_lt_of_lt hle))
      unfold exec at h ⊢
      split
      · simp_all
      · simp_all
      · rename_i out s₁ hstep
        rw [hstep] at h
        obtain ⟨r₁, hr₁, rfl⟩ := Option.map_eq_some_iff.mp h
        simp [ih hr₁ (Nat.le_of_succ_le_succ hle)]

theorem exec_unique {n k : Nat} {s : σ} {r r' : List ε × σ} (h : exec step n s = some r)
    (h' : exec step k s = some r') : r = r' := by
  have hmax := exec_mono h (Nat.le_max_left n k)
  have hmax' := exec_mono h' (Nat.le_max_right n k)
  rw [hmax] at hmax'
  exact Option.some.inj hmax'

theorem exec_of_runs {n fuel : Nat} {s s' : σ} {es : List ε} {r : List ε × σ}
    (first : Runs step stop n s es s') (second : exec step fuel s' = some r) :
    exec step (n + fuel) s = some (es ++ r.1, r.2) := by
  induction first with
  | refl n s => exact exec_mono second (Nat.le_add_left fuel n)
  | @head n s s₁ s₂ out es _ hstep _ ih =>
      rw [Nat.add_right_comm]
      simp [exec, hstep, ih second]

theorem exec_after_runs {n fuel : Nat} {s s' : σ} {es : List ε} {r : List ε × σ}
    (first : Runs step stop n s es s') (h : exec step fuel s = some r) :
    ∃ r', exec step fuel s' = some r' ∧ r = (es ++ r'.1, r'.2) := by
  induction first generalizing fuel r with
  | refl n s => exact ⟨r, h, rfl⟩
  | @head n s s₁ s₂ out es _ hstep _ ih =>
      cases fuel with
      | zero => contradiction
      | succ fuel =>
          unfold exec at h
          rw [hstep] at h
          obtain ⟨r₁, hr₁, rfl⟩ := Option.map_eq_some_iff.mp h
          obtain ⟨r', hr', rfl⟩ := ih hr₁
          refine ⟨r', exec_mono hr' (Nat.le_succ fuel), ?_⟩
          rw [List.append_assoc]

theorem execTo_of_runs {n fuel : Nat} {s s' : σ} {es : List ε} (h : Runs step stop n s es s')
    (hs : stop s = false) (hs' : stop s' = true) (hfuel : n ≤ fuel) :
    execTo step stop fuel s = some (es, s') := by
  induction h generalizing fuel with
  | refl n s => simp [hs] at hs'
  | @head n s s₁ s₂ out es _ hstep hrest ih =>
      obtain ⟨fuel, rfl⟩ := Nat.exists_eq_succ_of_ne_zero (Nat.ne_of_gt (Nat.zero_lt_of_lt hfuel))
      cases hmid : stop s₁ with
      | true =>
          cases hrest with
          | refl => simp [execTo, hstep, Signal.state, Signal.out, hmid]
          | head hgo => simp [hgo] at hmid
      | false =>
          have hexec := ih hmid hs' (Nat.le_of_succ_le_succ hfuel)
          simp [execTo, hstep, Signal.state, Signal.out, hmid, hexec]

theorem execTo_mono {fuel : Nat} {s : σ} {r : List ε × σ}
    (h : execTo step stop fuel s = some r) {more : Nat} (hle : fuel ≤ more) :
    execTo step stop more s = some r := by
  induction fuel generalizing s r more with
  | zero => contradiction
  | succ fuel ih =>
      obtain ⟨more, rfl⟩ := Nat.exists_eq_succ_of_ne_zero (Nat.ne_of_gt (Nat.zero_lt_of_lt hle))
      unfold execTo at h ⊢
      split
      · simp_all
      · rename_i sig hstep
        rw [hstep] at h
        simp only at h
        split
        · rename_i hstop
          rwa [if_pos hstop] at h
        · rename_i hgo
          rw [if_neg hgo] at h
          obtain ⟨r₁, hr₁, rfl⟩ := Option.map_eq_some_iff.mp h
          simp [ih hr₁ (Nat.le_of_succ_le_succ hle)]

theorem execTo_unique {n k : Nat} {s : σ} {r r' : List ε × σ}
    (h : execTo step stop n s = some r) (h' : execTo step stop k s = some r') : r = r' := by
  have hmax := execTo_mono h (Nat.le_max_left n k)
  have hmax' := execTo_mono h' (Nat.le_max_right n k)
  rw [hmax] at hmax'
  exact Option.some.inj hmax'

theorem execTo_after_runs {n fuel : Nat} {s s' : σ} {es : List ε} {r : List ε × σ}
    (first : Runs step stop n s es s') (hgo : stop s' = false)
    (h : execTo step stop fuel s = some r) :
    ∃ fuel' r', fuel' ≤ fuel ∧ (s = s' ∨ fuel' < fuel) ∧ execTo step stop fuel' s' = some r' ∧
      r'.2 = r.2 := by
  induction first generalizing fuel r with
  | refl n s => exact ⟨fuel, r, Nat.le_refl fuel, .inl rfl, h, rfl⟩
  | @head n s s₁ s₂ out es _ hstep hrest ih =>
      have hgo₁ : stop s₁ = false := by
        cases hrest with
        | refl => exact hgo
        | head h₁ => exact h₁
      cases fuel with
      | zero => contradiction
      | succ fuel =>
          unfold execTo at h
          rw [hstep] at h
          simp only [Signal.state, hgo₁, Bool.false_eq_true, if_false] at h
          obtain ⟨r₁, hr₁, rfl⟩ := Option.map_eq_some_iff.mp h
          obtain ⟨fuel', r', hle, -, hr', heq⟩ := ih hgo hr₁
          exact ⟨fuel', r', Nat.le_succ_of_le hle, .inr (Nat.lt_succ_of_le hle), hr', heq⟩

end Engine

end Glowforge.Foundation
