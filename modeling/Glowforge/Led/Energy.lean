import Glowforge.Led.Motion
import Mathlib.Algebra.Order.Ring.Rat
import Mathlib.Data.Rat.Cast.Order
import Mathlib.Tactic.NormNum

/-! The simulation as a critically damped oscillator. A timestep is a step of the
oscillator, disturbed by what its operations round off and by how far the target is from
the centre that the motion is measured from. -/
namespace Glowforge.Led.Motion
open Foundation

/-- The share of the motion that a timestep at speed `s` takes. -/
def rate (s : Int) : ℚ := 81 * s / 32768

/-- The motion about a centre that the target is `shift` away from. -/
def phase (s shift : Int) (m : Motion) : Oscillation ℚ where
  gap := s * (m.offset - shift) - 8 * m.half
  speed := 8 * m.half
  push := 16 * m.push

def energy (s shift : Int) (m : Motion) : ℚ := (m.phase s shift).energy

variable {s shift : Int} {m : Motion}

private theorem cut {c : Int} (hc : 0 < c) (x : Int) :
    (x : ℚ) / c - 1 < (x / c : Int) ∧ ((x / c : Int) : ℚ) ≤ x / c := by
  have hlow : c * (x / c) ≤ x := Int.mul_ediv_self_le hc.ne'
  have hhigh : x < c * (x / c) + c := Int.lt_mul_ediv_self_add hc
  have hcq : (0 : ℚ) < c := by exact_mod_cast hc
  have hlow' : (c : ℚ) * (x / c : Int) ≤ x := by exact_mod_cast hlow
  have hhigh' : (x : ℚ) < c * (x / c : Int) + c := by exact_mod_cast hhigh
  constructor
  · rw [sub_lt_iff_lt_add, div_lt_iff₀ hcq]
    linarith
  · rw [le_div_iff₀ hcq]
    linarith

private theorem travel_cut (m : Motion) :
    ∃ δ : ℚ, 0 ≤ δ ∧ δ ≤ 1 ∧ (m.travel : ℚ) = 81 / 4096 * m.half - δ := by
  obtain ⟨hlow, hhigh⟩ := cut (c := 4096) (by decide) (m.half * 81)
  push_cast at hlow hhigh
  exact ⟨81 / 4096 * m.half - m.travel, by unfold travel; linarith, by unfold travel; linarith,
    by ring⟩

private theorem push_cut (s : Int) (m : Motion) :
    ∃ κ : ℚ, |κ| ≤ 17 ∧
      16 * ((m.step s).push : ℚ) = rate s * (s * m.offset - 16 * m.velocity) + κ := by
  obtain ⟨hs₁, hs₂⟩ := cut (c := 64) (by decide) (s ^ 2 * m.offset)
  obtain ⟨hd₁, hd₂⟩ := cut (c := 4) (by decide) (s * m.velocity)
  obtain ⟨hh₁, hh₂⟩ := cut (c := 2) (by decide) (m.step s).accel
  obtain ⟨hp₁, hp₂⟩ := cut (c := 4096) (by decide) ((m.step s).accel / 2 * 81)
  have haccel : ((m.step s).accel : ℚ) = (m.spring s : ℚ) - m.damping s := by
    rw [step_accel]
    push_cast
    ring
  rw [haccel] at hh₁ hh₂
  push_cast at hs₁ hs₂ hd₁ hd₂ hh₁ hh₂ hp₁ hp₂
  refine ⟨16 * ((m.step s).push : ℚ) - rate s * (s * m.offset - 16 * m.velocity), ?_, by ring⟩
  have hexact : rate s * (s * m.offset - 16 * m.velocity) =
      81 / 512 * (s ^ 2 * m.offset / 64 - s * m.velocity / 4) := by
    unfold rate
    ring
  rw [hexact, abs_le]
  unfold push spring damping at *
  constructor <;> linarith

theorem phase_step (hs : 0 ≤ s) (shift : Int) (m : Motion) :
    ∃ e : Oscillation ℚ,
      (m.step s).phase s shift = (m.phase s shift).step (rate s) + e ∧
      e.energy ≤ (s + (rate s * s * |(shift : ℚ)| + 17)) ^ 2 +
        7 / 6 * (rate s * s * |(shift : ℚ)| + 17) ^ 2 := by
  obtain ⟨δ, hδ₀, hδ₁, htravel⟩ := m.travel_cut
  obtain ⟨κ, hκ, hpush⟩ := push_cut s m
  have hsq : (0 : ℚ) ≤ s := by exact_mod_cast hs
  have hrate : 0 ≤ rate s := by
    unfold rate
    positivity
  have hvelocity : (m.velocity : ℚ) = m.half - m.push := by
    rw [velocity_eq]
    push_cast
    ring
  have hhalf : ((m.step s).half : ℚ) = m.half + 2 * (m.step s).push := by
    rw [step_half]
    push_cast
    ring
  have hf : |rate s * s * shift + κ| ≤ rate s * s * |(shift : ℚ)| + 17 := by
    calc |rate s * s * shift + κ| ≤ |rate s * s * shift| + |κ| := abs_add_le _ _
      _ = rate s * s * |(shift : ℚ)| + |κ| := by rw [abs_mul, abs_of_nonneg (mul_nonneg hrate hsq)]
      _ ≤ rate s * s * |(shift : ℚ)| + 17 := by linarith
  generalize hF : rate s * s * |(shift : ℚ)| + 17 = F at hf ⊢
  generalize hfeq : rate s * s * shift + κ = f at hf
  refine ⟨⟨s * δ - f, f, f⟩, ?_, ?_⟩
  · rw [hvelocity] at hpush
    ext
    · simp only [phase, Oscillation.step, Oscillation.add_gap, step_offset, hhalf]
      push_cast
      rw [htravel]
      have hgoal : 8 * (2 * ((m.step s).push : ℚ)) = rate s * (s * m.offset - 16 * (m.half - m.push)) + κ := by
        linarith
      rw [← hfeq]
      unfold rate at *
      linarith
    · simp only [phase, Oscillation.step, Oscillation.pull, Oscillation.add_speed, hhalf]
      rw [← hfeq]
      linarith
    · simp only [phase, Oscillation.step, Oscillation.pull, Oscillation.add_push]
      rw [hpush, ← hfeq]
      ring
  · have hgap : |s * δ - f| ≤ s + F := by
      have hδ : |s * δ| ≤ s := by
        rw [abs_of_nonneg (mul_nonneg hsq hδ₀)]
        exact mul_le_of_le_one_right hsq hδ₁
      calc |s * δ - f| ≤ |s * δ| + |f| := abs_sub _ _
        _ ≤ s + F := add_le_add hδ hf
    have hgap₂ : (s * δ - f) ^ 2 ≤ (s + F) ^ 2 := by
      rw [← sq_abs]
      exact pow_le_pow_left₀ (abs_nonneg _) hgap 2
    have hf₂ : f ^ 2 ≤ F ^ 2 := by
      rw [← sq_abs]
      exact pow_le_pow_left₀ (abs_nonneg _) hf 2
    simp only [Oscillation.energy]
    linarith

theorem rate_pos (hs : 1 ≤ s) : 0 < rate s := by
  have hsq : (1 : ℚ) ≤ s := by exact_mod_cast hs
  unfold rate
  positivity

theorem rate_le (hs : s ≤ 160) : rate s ≤ 2 / 5 := by
  have hsq : (s : ℚ) ≤ 160 := by exact_mod_cast hs
  unfold rate
  linarith

/-- Four hundred steps of brightness, in 1/4096. -/
def swing : ℚ := 400 * 4096

/-- Whatever the target, within half of the table and a little more of the centre, a
timestep keeps a bound of at least this swing on the energy. -/
theorem energy_step_bounded {R : ℚ} (hs : 1 ≤ s) (hs' : s ≤ 160) (hshift : |shift| ≤ 522496)
    (hR : swing ≤ R) (h : m.energy s shift ≤ (R * s) ^ 2) :
    (m.step s).energy s shift ≤ (R * s) ^ 2 := by
  obtain ⟨e, hstep, he⟩ := phase_step (le_trans (by decide) hs) shift m
  have hsq : (1 : ℚ) ≤ s := by exact_mod_cast hs
  have hp := rate_pos hs
  have hp' := rate_le hs'
  have hshiftq : |(shift : ℚ)| ≤ 522496 := by exact_mod_cast hshift
  have hroom : s + 17 ≤ rate s * s * 7504 := by
    unfold rate
    nlinarith
  have hF : rate s * s * |(shift : ℚ)| + 17 + s ≤ rate s * s * 530000 := by
    have hscaled : rate s * s * |(shift : ℚ)| ≤ rate s * s * 522496 :=
      mul_le_mul_of_nonneg_left hshiftq (by positivity)
    linarith
  have hbound : e.energy ≤ 13 / 6 * (rate s * s * 530000) ^ 2 := by
    have hfirst : (s + (rate s * s * |(shift : ℚ)| + 17)) ^ 2 ≤ (rate s * s * 530000) ^ 2 :=
      pow_le_pow_left₀ (by positivity) (by linarith) 2
    have hsecond : (rate s * s * |(shift : ℚ)| + 17) ^ 2 ≤ (rate s * s * 530000) ^ 2 :=
      pow_le_pow_left₀ (by positivity) (by linarith) 2
    linarith
  have hwide : 26 / 3 * 530000 ^ 2 ≤ R ^ 2 := by
    have hsquare : swing ^ 2 ≤ R ^ 2 := pow_le_pow_left₀ (by unfold swing; norm_num) hR 2
    have hswing : 26 / 3 * 530000 ^ 2 ≤ swing ^ 2 := by
      unfold swing
      norm_num
    exact hswing.trans hsquare
  unfold energy
  rw [hstep]
  apply Oscillation.energy_bounded hp hp' h
  calc (2 / rate s - 1) * e.energy
      ≤ 2 / rate s * e.energy := by
        have := e.energy_nonneg
        linarith
    _ ≤ 2 / rate s * (13 / 6 * (rate s * s * 530000) ^ 2) :=
        mul_le_mul_of_nonneg_left hbound (by positivity)
    _ = rate s / 2 * (26 / 3 * 530000 ^ 2 * (s : ℚ) ^ 2) := by
        field_simp
        ring
    _ ≤ rate s / 2 * (R * s) ^ 2 := by
        rw [mul_pow]
        exact mul_le_mul_of_nonneg_left (mul_le_mul_of_nonneg_right hwide (by positivity))
          (by positivity)

/-- From a speed of 16 on, the motion loses energy until it is close to the target. -/
theorem energy_step_descends (hs : 16 ≤ s) (hs' : s ≤ 160) (hfar : 256 < |m.offset|) :
    (m.step s).energy s 0 < m.energy s 0 := by
  obtain ⟨e, hstep, he⟩ := phase_step (le_trans (by decide) hs) 0 m
  have hsq : (16 : ℚ) ≤ s := by exact_mod_cast hs
  have hp := rate_pos (le_trans (by decide) hs)
  have hp' := rate_le hs'
  have hoffset : (s * 256 : ℚ) ^ 2 ≤ 3 * (m.phase s 0).energy := by
    have hcombined := (m.phase s 0).sq_combination_le 1 1 0
    have hwhole : 1 * (m.phase s 0).gap + 1 * (m.phase s 0).speed + 0 * (m.phase s 0).push =
        s * m.offset := by
      simp only [phase]
      push_cast
      ring
    have hfarq : (256 : ℚ) < |(m.offset : ℚ)| := by exact_mod_cast hfar
    have hsquare : (s * 256 : ℚ) ^ 2 ≤ (s * m.offset) ^ 2 := by
      rw [mul_pow, mul_pow, ← sq_abs (m.offset : ℚ)]
      exact mul_le_mul_of_nonneg_left (pow_le_pow_left₀ (by norm_num) hfarq.le 2) (by positivity)
    rw [hwhole] at hcombined
    linarith
  have hnoise : 12 * e.energy < (rate s * (s * 256)) ^ 2 := by
    have he' : e.energy ≤ (s + 17) ^ 2 + 7 / 6 * 17 ^ 2 := by
      simpa using he
    have hrate : rate s * (s * 256) = 81 / 128 * (s : ℚ) ^ 2 := by
      unfold rate
      ring
    rw [hrate]
    nlinarith [mul_self_nonneg ((s : ℚ) - 16)]
  unfold energy
  rw [hstep]
  apply Oscillation.energy_descends hp hp'
  calc (2 / rate s - 1) * e.energy
      ≤ 2 / rate s * e.energy := by
        have := e.energy_nonneg
        linarith
    _ < 2 / rate s * ((rate s * (s * 256)) ^ 2 / 12) :=
        mul_lt_mul_of_pos_left (by linarith) (by positivity)
    _ = rate s / 2 * ((s * 256) ^ 2 / 3) := by
        field_simp
        ring
    _ ≤ rate s / 2 * (m.phase s 0).energy :=
        mul_le_mul_of_nonneg_left (by linarith) (by positivity)

def charge (s : Int) (m : Motion) : Nat :=
  (6 * (s * m.offset - 8 * m.half) ^ 2 + 3 * (8 * m.half) ^ 2 + 4 * (16 * m.push) ^ 2).toNat

theorem charge_eq (s : Int) (m : Motion) : (m.charge s : ℚ) = 6 * m.energy s 0 := by
  have hwhole : (m.charge s : Int) =
      6 * (s * m.offset - 8 * m.half) ^ 2 + 3 * (8 * m.half) ^ 2 + 4 * (16 * m.push) ^ 2 :=
    Int.toNat_of_nonneg (by positivity)
  have hcast : (m.charge s : ℚ) = ((m.charge s : Int) : ℚ) := rfl
  rw [hcast, hwhole]
  simp only [energy, phase, Oscillation.energy]
  push_cast
  ring

theorem charge_step_lt (hs : 16 ≤ s) (hs' : s ≤ 160) (hfar : 256 < |m.offset|) :
    (m.step s).charge s < m.charge s := by
  have hdescends := energy_step_descends hs hs' hfar
  have hcast : ((m.step s).charge s : ℚ) < m.charge s := by
    rw [charge_eq, charge_eq]
    linarith
  exact_mod_cast hcast

theorem energy_still (s shift offset : Int) :
    (still offset).energy s shift = (((offset - shift : Int) : ℚ) * s) ^ 2 := by
  simp only [energy, phase, Oscillation.energy, still_push, still_half, still_offset]
  push_cast
  ring

theorem energy_still_le {R : ℚ} {offset : Int} (h : |offset - shift| ≤ R) :
    (still offset).energy s shift ≤ (R * s) ^ 2 := by
  rw [energy_still, mul_pow, mul_pow]
  apply mul_le_mul_of_nonneg_right _ (sq_nonneg _)
  rw [← sq_abs]
  apply pow_le_pow_left₀ (abs_nonneg _)
  exact_mod_cast h

/-- A reach of the motion, in 1/4096 of a step of brightness, that the words of the
simulation have room for at speed `s`. -/
structure Reach (s : Int) (R : ℚ) : Prop where
  wide : swing ≤ R
  value : R ≤ 18000 * 4096
  force : R * s ^ 2 ≤ 420 * 4096 * 25600

structure Near (s shift : Int) (R : ℚ) (m : Motion) : Prop where
  offset : |((m.offset - shift : Int) : ℚ)| ≤ 17321 / 10000 * R
  spring : |((s ^ 2 * m.offset : Int) : ℚ)| ≤ 17321 / 10000 * (R * s ^ 2) + 522496 * s ^ 2
  damping : |((s * m.velocity : Int) : ℚ)| ≤ 30823 / 160000 * (R * s ^ 2)
  force : |((s ^ 2 * m.offset - 16 * (s * m.velocity) : Int) : ℚ)| ≤
    21214 / 10000 * (R * s ^ 2) + 522496 * s ^ 2
  half : |(m.half : ℚ)| ≤ 14143 / 80000 * (R * s)
  velocity : |(m.velocity : ℚ)| ≤ 30823 / 160000 * (R * s)

theorem near_of_energy {R : ℚ} (hs : 1 ≤ s) (hshift : |shift| ≤ 522496) (hR : 0 ≤ R)
    (h : m.energy s shift ≤ (R * s) ^ 2) : m.Near s shift R := by
  have hsq : (1 : ℚ) ≤ s := by exact_mod_cast hs
  have hs₀ : (0 : ℚ) < s := by linarith
  have hB : 0 ≤ R * s := mul_nonneg hR hs₀.le
  have hshiftq : |(shift : ℚ)| ≤ 522496 := by exact_mod_cast hshift
  have hvelocity : (m.velocity : ℚ) = m.half - m.push := by
    rw [velocity_eq]
    push_cast
    ring
  have hwhole : |s * ((m.offset : ℚ) - shift)| ≤ 17321 / 10000 * (R * s) := by
    have hcombined := Oscillation.abs_combination_le hB h (a := 1) (b := 1) (c := 0)
      (q := 17321 / 10000) (by norm_num) (by norm_num)
    have heq : 1 * (m.phase s shift).gap + 1 * (m.phase s shift).speed +
        0 * (m.phase s shift).push = s * (m.offset - shift) := by
      simp only [phase]
      ring
    rwa [heq] at hcombined
  have hpull : |s * ((m.offset : ℚ) - shift) - 16 * m.velocity| ≤ 21214 / 10000 * (R * s) := by
    have hcombined := Oscillation.abs_combination_le hB h (a := 1) (b := -1) (c := 1)
      (q := 21214 / 10000) (by norm_num) (by norm_num)
    have heq : 1 * (m.phase s shift).gap + -1 * (m.phase s shift).speed +
        1 * (m.phase s shift).push = s * (m.offset - shift) - 16 * m.velocity := by
      simp only [phase, hvelocity]
      ring
    rwa [heq] at hcombined
  have hspeed : |(m.half : ℚ)| ≤ 14143 / 80000 * (R * s) := by
    have hcombined := Oscillation.abs_combination_le hB h (a := 0) (b := 1 / 8) (c := 0)
      (q := 14143 / 80000) (by norm_num) (by norm_num)
    have heq : 0 * (m.phase s shift).gap + 1 / 8 * (m.phase s shift).speed +
        0 * (m.phase s shift).push = m.half := by
      simp only [phase]
      ring
    rwa [heq] at hcombined
  have hslow : |(m.velocity : ℚ)| ≤ 30823 / 160000 * (R * s) := by
    have hcombined := Oscillation.abs_combination_le hB h (a := 0) (b := 1 / 8) (c := -1 / 16)
      (q := 30823 / 160000) (by norm_num) (by norm_num)
    have heq : 0 * (m.phase s shift).gap + 1 / 8 * (m.phase s shift).speed +
        -1 / 16 * (m.phase s shift).push = m.velocity := by
      simp only [phase, hvelocity]
      ring
    rwa [heq] at hcombined
  have hscale (x y : ℚ) (hx : |x| ≤ y * (R * s)) : |s * x| ≤ y * (R * s ^ 2) := by
    rw [abs_mul, abs_of_pos hs₀]
    calc s * |x| ≤ s * (y * (R * s)) := mul_le_mul_of_nonneg_left hx hs₀.le
      _ = y * (R * s ^ 2) := by ring
  have hshifted : |(s : ℚ) ^ 2 * shift| ≤ 522496 * s ^ 2 := by
    rw [abs_mul, abs_of_pos (by positivity : (0 : ℚ) < s ^ 2), mul_comm]
    exact mul_le_mul_of_nonneg_right hshiftq (by positivity)
  refine ⟨?_, ?_, ?_, ?_, hspeed, hslow⟩
  · rw [abs_mul, abs_of_pos hs₀] at hwhole
    push_cast
    apply le_of_mul_le_mul_left _ hs₀
    linarith
  · have heq : ((s ^ 2 * m.offset : Int) : ℚ) =
        s * (s * ((m.offset : ℚ) - shift)) + (s : ℚ) ^ 2 * shift := by
      push_cast
      ring
    rw [heq]
    exact (abs_add_le _ _).trans (add_le_add (hscale _ _ hwhole) hshifted)
  · push_cast
    exact hscale _ _ hslow
  · have heq : ((s ^ 2 * m.offset - 16 * (s * m.velocity) : Int) : ℚ) =
        s * (s * ((m.offset : ℚ) - shift) - 16 * m.velocity) + (s : ℚ) ^ 2 * shift := by
      push_cast
      ring
    rw [heq]
    exact (abs_add_le _ _).trans (add_le_add (hscale _ _ hpull) hshifted)

theorem Reach.speed {R : ℚ} (h : Reach s R) : R * s ≤ 1810000000 := by
  have hR : 0 ≤ R := le_trans (by unfold swing; norm_num) h.wide
  have hmean : 48 * (R * s) ≤ R * s ^ 2 + 576 * R := by
    have hsquare : 0 ≤ R * ((s : ℚ) - 24) ^ 2 := by positivity
    linarith
  have hvalue := h.value
  have hforce := h.force
  linarith

private theorem abs_le_of_cast {x : Int} {N : Nat} {q : ℚ} (h : |(x : ℚ)| ≤ q) (hq : q ≤ N) :
    |x| ≤ N := by
  exact_mod_cast h.trans hq

theorem within_of_energy {d : SmoothData} {n : Nat} {R : ℚ} (hn : 1 ≤ n)
    (hn' : n ≤ SmoothData.speedMax) (hshift : |shift| ≤ 522496)
    (hcentre : |d.target.intval - shift| ≤ 2 ^ 21) (hR : Reach n R)
    (h : d.motion.energy n shift ≤ (R * n) ^ 2) : d.Within n := by
  have hn₁ : (1 : Int) ≤ n := by exact_mod_cast hn
  have hn₂ : (n : Int) ≤ 160 := by exact_mod_cast hn'
  have hR₀ : 0 ≤ R := le_trans (by unfold swing; norm_num) hR.wide
  have hnow := near_of_energy hn₁ hshift hR₀ h
  have hnext := near_of_energy hn₁ hshift hR₀ (energy_step_bounded hn₁ hn₂ hshift hR.wide h)
  have hspeed := hR.speed
  have hvalue := hR.value
  have hforce := hR.force
  have hsquare : ((n : Int) : ℚ) ^ 2 ≤ 25600 := by
    have hnq : ((n : Int) : ℚ) ≤ 160 := by exact_mod_cast hn₂
    have hn₀ : (0 : ℚ) ≤ (n : Int) := by positivity
    nlinarith
  simp only [Int.cast_natCast] at hspeed hforce hsquare
  have hoffset := abs_le_of_cast (N := 127800000) hnow.offset (by push_cast; linarith)
  have hoffset' := abs_le_of_cast (N := 127800000) hnext.offset (by push_cast; linarith)
  have hspring := abs_le_of_cast (N := 89700000000) hnow.spring (by push_cast; linarith)
  have hdamping := abs_le_of_cast (N := 8500000000) hnow.damping (by push_cast; linarith)
  have haccel := abs_le_of_cast (N := 106900000000) hnow.force (by push_cast; linarith)
  have hhalf := abs_le_of_cast (N := 400000000) hnow.half (by push_cast; linarith)
  have hvelocity := abs_le_of_cast (N := 400000000) hnext.velocity (by push_cast; linarith)
  rw [abs_le] at hoffset hoffset' hspring hdamping haccel hhalf hvelocity hshift hcentre
  rw [Motion.step_offset] at hoffset'
  have hmotion : d.motion.offset = d.target.intval - d.value.intval := rfl
  refine ⟨?_, ?_, ?_, ?_, ?_, ?_, ?_⟩
  · unfold InRange
    omega
  · unfold InRange spring
    omega
  · unfold InRange damping
    omega
  · unfold InRange spring damping
    omega
  · unfold InRange
    omega
  · omega
  · unfold InRange
    omega

end Glowforge.Led.Motion
