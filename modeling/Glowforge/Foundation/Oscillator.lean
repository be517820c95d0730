import Mathlib.Algebra.Order.Field.Basic
import Mathlib.Tactic.FieldSimp
import Mathlib.Tactic.Linarith
import Mathlib.Tactic.Positivity
import Mathlib.Tactic.Ring

/-! A critically damped oscillator that is moved on in steps, each with the pull of the
step before it. In the right coordinates one energy contracts at every step rate up to
two fifths, so it bounds the motion through any change of the rate and under any
disturbance that is small beside it. -/
namespace Glowforge.Foundation

/-- The speed of the oscillator, the last push it got, and the gap that its speed leaves
of the way to go. -/
@[ext] structure Oscillation (K : Type*) where
  gap : K
  speed : K
  push : K

namespace Oscillation

variable {K : Type*} [Field K]

instance : Add (Oscillation K) := ⟨fun z e => ⟨z.gap + e.gap, z.speed + e.speed, z.push + e.push⟩⟩

@[simp] theorem add_gap (z e : Oscillation K) : (z + e).gap = z.gap + e.gap := rfl
@[simp] theorem add_speed (z e : Oscillation K) : (z + e).speed = z.speed + e.speed := rfl
@[simp] theorem add_push (z e : Oscillation K) : (z + e).push = z.push + e.push := rfl

def pull (z : Oscillation K) : K := z.gap - z.speed + z.push

def step (p : K) (z : Oscillation K) : Oscillation K where
  gap := (1 - p) * z.gap - p * z.push
  speed := z.speed + p * z.pull
  push := p * z.pull

def energy (z : Oscillation K) : K := z.gap ^ 2 + z.speed ^ 2 / 2 + 2 * z.push ^ 2 / 3

variable [LinearOrder K] [IsStrictOrderedRing K] {p : K}

theorem energy_nonneg (z : Oscillation K) : 0 ≤ z.energy := by
  unfold energy
  positivity

/-- What a step loses beyond the share `p` is a sum of squares. -/
theorem energy_step (p : K) (z : Oscillation K) :
    (1 - p) * z.energy - (z.step p).energy =
      p * ((1 / 2 - 7 / 6 * p) * (z.speed - z.gap - z.push) ^ 2 +
        (1 / 2 - p) * (z.gap + z.push) ^ 2) + (2 / 3 - 5 / 3 * p) * z.push ^ 2 := by
  simp only [energy, step, pull]
  ring

theorem energy_step_le (hp : 0 ≤ p) (hp' : p ≤ 2 / 5) (z : Oscillation K) :
    (z.step p).energy ≤ (1 - p) * z.energy := by
  have hloss := z.energy_step p
  have hfirst : 0 ≤ 1 / 2 - 7 / 6 * p := by linarith
  have hsecond : 0 ≤ 1 / 2 - p := by linarith
  have hthird : 0 ≤ 2 / 3 - 5 / 3 * p := by linarith
  have hsquares : 0 ≤ p * ((1 / 2 - 7 / 6 * p) * (z.speed - z.gap - z.push) ^ 2 +
      (1 / 2 - p) * (z.gap + z.push) ^ 2) + (2 / 3 - 5 / 3 * p) * z.push ^ 2 := by
    positivity
  linarith

theorem sq_add_le {η : K} (hη : 0 < η) (a b : K) :
    (a + b) ^ 2 ≤ (1 + η) * a ^ 2 + (1 + 1 / η) * b ^ 2 := by
  have hsquare : 0 ≤ (η * a - b) ^ 2 / η := by positivity
  have heq : (1 + η) * a ^ 2 + (1 + 1 / η) * b ^ 2 - (a + b) ^ 2 = (η * a - b) ^ 2 / η := by
    field_simp
    ring
  linarith

theorem energy_add_le {η : K} (hη : 0 < η) (z e : Oscillation K) :
    (z + e).energy ≤ (1 + η) * z.energy + (1 + 1 / η) * e.energy := by
  have hgap := sq_add_le hη z.gap e.gap
  have hspeed := sq_add_le hη z.speed e.speed
  have hpush := sq_add_le hη z.push e.push
  simp only [energy, add_gap, add_speed, add_push]
  linarith

theorem energy_disturbed (hp : 0 < p) (hp' : p ≤ 2 / 5) (z e : Oscillation K) :
    (z.step p + e).energy ≤ (1 - p / 2) * z.energy + (2 / p - 1) * e.energy := by
  have hrest : 0 < 1 - p := by linarith
  have hη : 0 < p / 2 / (1 - p) := by positivity
  have hadd := energy_add_le hη (z.step p) e
  have hstep := energy_step_le hp.le hp' z
  have hshare : (1 + p / 2 / (1 - p)) * ((1 - p) * z.energy) = (1 - p / 2) * z.energy := by
    field_simp
    ring
  have hinverse : 1 + 1 / (p / 2 / (1 - p)) = 2 / p - 1 := by
    field_simp
    ring
  have hscaled : (1 + p / 2 / (1 - p)) * (z.step p).energy ≤ (1 - p / 2) * z.energy := by
    rw [← hshare]
    exact mul_le_mul_of_nonneg_left hstep (by positivity)
  rw [hinverse] at hadd
  linarith

theorem energy_bounded (hp : 0 < p) (hp' : p ≤ 2 / 5) {z e : Oscillation K} {B : K}
    (hz : z.energy ≤ B) (he : (2 / p - 1) * e.energy ≤ p / 2 * B) :
    (z.step p + e).energy ≤ B := by
  have hstep := energy_disturbed hp hp' z e
  have hkept : (1 - p / 2) * z.energy ≤ (1 - p / 2) * B :=
    mul_le_mul_of_nonneg_left hz (by linarith)
  linarith

theorem energy_descends (hp : 0 < p) (hp' : p ≤ 2 / 5) {z e : Oscillation K}
    (he : (2 / p - 1) * e.energy < p / 2 * z.energy) : (z.step p + e).energy < z.energy := by
  have hstep := energy_disturbed hp hp' z e
  linarith

theorem sq_combination_le (z : Oscillation K) (a b c : K) :
    (a * z.gap + b * z.speed + c * z.push) ^ 2 ≤
      (a ^ 2 + 2 * b ^ 2 + 3 / 2 * c ^ 2) * z.energy := by
  have heq : (a ^ 2 + 2 * b ^ 2 + 3 / 2 * c ^ 2) * z.energy -
      (a * z.gap + b * z.speed + c * z.push) ^ 2 =
        (a * z.speed - 2 * b * z.gap) ^ 2 / 2 + (2 * a * z.push - 3 * c * z.gap) ^ 2 / 6 +
          (4 * b * z.push - 3 * c * z.speed) ^ 2 / 12 := by
    simp only [energy]
    ring
  have hsquares : 0 ≤ (a * z.speed - 2 * b * z.gap) ^ 2 / 2 +
      (2 * a * z.push - 3 * c * z.gap) ^ 2 / 6 + (4 * b * z.push - 3 * c * z.speed) ^ 2 / 12 := by
    positivity
  linarith

theorem abs_combination_le {z : Oscillation K} {B : K} (hB : 0 ≤ B) (hz : z.energy ≤ B ^ 2)
    {a b c q : K} (hq : 0 ≤ q) (hnorm : a ^ 2 + 2 * b ^ 2 + 3 / 2 * c ^ 2 ≤ q ^ 2) :
    |a * z.gap + b * z.speed + c * z.push| ≤ q * B := by
  apply abs_le_of_sq_le_sq _ (mul_nonneg hq hB)
  calc (a * z.gap + b * z.speed + c * z.push) ^ 2
      ≤ (a ^ 2 + 2 * b ^ 2 + 3 / 2 * c ^ 2) * z.energy := z.sq_combination_le a b c
    _ ≤ q ^ 2 * B ^ 2 := mul_le_mul hnorm hz z.energy_nonneg (sq_nonneg q)
    _ = (q * B) ^ 2 := (mul_pow q B 2).symm

end Oscillation

end Glowforge.Foundation
