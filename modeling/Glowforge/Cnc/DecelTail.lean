import Mathlib.Tactic.Linarith
import Mathlib.Tactic.Ring
import Glowforge.Cnc.RampRun

/-! The tail of a deceleration, counted in timer ticks. Each frequency is in force for one
update interval, a hundredth of a second, and each update comes at the end of one: the steps
of the tail exceed what the closed formula allows for. -/
namespace Glowforge.Cnc
open Foundation Sdma

/-- The frequencies in force, one for each update interval until the state is IDLE. -/
def Driver.tailFrequencies : Nat → Driver → Option (List Word)
  | 0, _ => none
  | fuel + 1, d =>
      if d.rampUpdateTaskletFn.2.status.state = .idle then some [d.epit.hz]
      else (tailFrequencies fuel d.rampUpdateTaskletFn.2).map (d.epit.hz :: ·)

/-- A hundred times the ticks of a tail. -/
def tailSum (fs : List Word) : Nat := (fs.map BitVec.toNat).sum

namespace Ramp

theorem Slowing.hz {g d k : Nat} {R : Ramp} (h : Slowing g d k R) :
    R.hz.toNat = max 900 (g - k * d) := by
  have hhz := h.lawful.hz h.running
  rw [h.decelerating, Bool.or_true] at hhz
  exact (congrArg BitVec.toNat hhz).trans h.freq

theorem Slowing.interval {g d k : Nat} {D : Driver} (h : Slowing g d k D.ramp) :
    (k < decelUpdates g d → D.rampUpdateTaskletFn.2.status.state ≠ .idle ∧
      Slowing g d (k + 1) D.rampUpdateTaskletFn.2.ramp ∧ D.epit.hz.toNat + k * d = g) ∧
    (k = decelUpdates g d → D.rampUpdateTaskletFn.2.status.state = .idle ∧
      D.epit.hz.toNat = 900) := by
  obtain ⟨-, hramp⟩ := D.ramp_rampUpdateTaskletFn
  obtain ⟨hmore, hlast⟩ := h.turn (turn_update h.lawful)
  rw [← hramp] at hmore hlast
  have hhz : D.epit.hz.toNat = max 900 (g - k * d) := h.hz
  have hd : 0 < d := by
    have hdelta := h.lawful.delta.1
    rw [h.delta] at hdelta
    omega
  have hshort := lt_decelUpdates (g := g) hd k
  constructor
  · intro hlt
    have hslowing := (hmore hlt).2
    have hfast := hshort.mp hlt
    refine ⟨?_, hslowing, by omega⟩
    rw [show D.rampUpdateTaskletFn.2.status.state = .running from hslowing.running]
    decide
  · intro hend
    have hslow : ¬k * d < g - 900 := fun hlt => absurd (hshort.mpr hlt) (by omega)
    exact ⟨(hlast hend).2, by omega⟩

/-- With `m` updates ahead that program a frequency, the tail is an arithmetic series that
ends with an interval at 900 Hz. -/
theorem tail_of_slowing {g d m k : Nat} {D : Driver} (h : Slowing g d k D.ramp)
    (hahead : decelUpdates g d = k + m) :
    ∃ fs, (∀ fuel, m < fuel → D.tailFrequencies fuel = some fs) ∧
      2 * tailSum fs + d * (m * (m - 1)) = 2 * (m * D.epit.hz.toNat) + 1800 := by
  induction m generalizing k D with
  | zero =>
      obtain ⟨hidle, hhz⟩ := h.interval.2 hahead.symm
      refine ⟨[D.epit.hz], ?_, ?_⟩
      · intro fuel hfuel
        obtain ⟨fuel, rfl⟩ := Nat.exists_eq_succ_of_ne_zero (Nat.ne_zero_of_lt hfuel)
        exact if_pos hidle
      · have hsum : tailSum [D.epit.hz] = D.epit.hz.toNat := by simp [tailSum]
        rw [hsum, hhz]
        rfl
  | succ m ih =>
      obtain ⟨hbusy, hnext, hhz⟩ := h.interval.1 (by omega)
      obtain ⟨fs, htail, hsum⟩ := ih hnext (by omega)
      refine ⟨D.epit.hz :: fs, ?_, ?_⟩
      · intro fuel hfuel
        obtain ⟨fuel, rfl⟩ := Nat.exists_eq_succ_of_ne_zero (Nat.ne_zero_of_lt hfuel)
        unfold Driver.tailFrequencies
        rw [if_neg hbusy, htail fuel (Nat.lt_of_succ_lt_succ hfuel), Option.map_some]
      · have hcons : tailSum (D.epit.hz :: fs) = D.epit.hz.toNat + tailSum fs := by simp [tailSum]
        rw [hcons]
        cases m with
        | zero => omega
        | succ m =>
            -- the next frequency is lower by d
            have hlater := (hnext.interval.1 (by omega)).2.2
            have hstep : D.epit.hz.toNat = D.rampUpdateTaskletFn.2.epit.hz.toNat + d := by
              rw [Nat.succ_mul] at hlater
              omega
            rw [hstep]
            simp only [Nat.add_sub_cancel] at hsum ⊢
            linarith

theorem slowing_from_full {R : Ramp} (hrun : R.state = .running) (hacc : R.accelerating = false)
    (hdec : R.decelerating = false) (hhz : R.hz = R.stepFreq)
    (hfreq : 1000 ≤ R.stepFreq.toNat ∧ R.stepFreq.toNat ≤ 200000)
    (hdelta : 100 ≤ R.rampStepFreqDelta.toNat ∧ R.rampStepFreqDelta.toNat ≤ 5000) :
    Slowing R.stepFreq.toNat R.rampStepFreqDelta.toNat 0 R.decelerate := by
  obtain ⟨hlow, hhigh⟩ := hfreq
  rw [decelerate_of_steady hdec, hacc]
  refine ⟨⟨⟨hlow, hhigh⟩, hdelta, ⟨?_, Nat.le_refl _⟩, ?_, ?_, ?_, fun _ => rfl, fun _ => hhz⟩,
    hrun, rfl, rfl, ?_, Nat.zero_le _⟩
  · change 900 ≤ R.stepFreq.toNat
    omega
  · exact fun hrest => absurd hrun hrest
  · exact fun hon => nomatch hon
  · exact fun hon => nomatch hon
  · change R.stepFreq.toNat = _
    omega

end Ramp

open Ramp

theorem cncBacktrackDecelSteps_toNat {f rate : Word} (hfreq : f.toNat ≤ 200000)
    (hrate : 10000 ≤ rate.toNat ∧ rate.toNat ≤ 500000) :
    (cncBacktrackDecelSteps f rate).toNat =
      f.toNat * ((f.toNat + 999) / 1000) / (2 * (rate.toNat / 1000)) := by
  have hkhz : ((f + 999) / 1000).toNat = (f.toNat + 999) / 1000 := by
    have hsum : (f + 999).toNat = f.toNat + 999 := by bv_omega
    rw [BitVec.toNat_udiv, hsum]
    rfl
  have hrkhz : (rate / 1000).toNat = rate.toNat / 1000 := BitVec.toNat_udiv
  have hpos : rate / 1000 ≠ 0 := by
    intro hzero
    rw [hzero] at hrkhz
    have hten : 10 ≤ rate.toNat / 1000 := by omega
    rw [← hrkhz] at hten
    exact absurd hten (by decide)
  have hproduct : f.toNat * ((f.toNat + 999) / 1000) ≤ 200000 * 200 :=
    Nat.mul_le_mul hfreq (by omega)
  have hmul : (f * ((f + 999) / 1000)).toNat = f.toNat * ((f.toNat + 999) / 1000) := by
    rw [BitVec.toNat_mul, hkhz]
    exact Nat.mod_eq_of_lt (by omega)
  have htwice : (2 * (rate / 1000)).toNat = 2 * (rate.toNat / 1000) := by
    rw [BitVec.toNat_mul, hrkhz]
    exact Nat.mod_eq_of_lt (by change 2 * (rate.toNat / 1000) < 2 ^ 32; omega)
  unfold cncBacktrackDecelSteps
  dsimp only
  rw [if_neg hpos, BitVec.toNat_udiv, hmul, htwice]

/-- The closed inequality between a step frequency and a ramp rate: `n` updates, the series
`f, f - d, …` of `n` frequencies and one interval at 900 Hz, in whole ticks. -/
def TailFits (f rate : Nat) : Prop :=
  let d := rate / 100
  let n := decelUpdates f d
  (n * (2 * f - d * (n - 1)) / 2 + 900 + 99) / 100 * (2 * (rate / 1000)) ≤ f * ((f + 999) / 1000)

instance (f rate : Nat) : Decidable (TailFits f rate) := inferInstanceAs (Decidable (_ ≤ _))

theorem tailSum_closed {f d s : Nat} (hd : 0 < d)
    (hseries : 2 * s + d * (decelUpdates f d * (decelUpdates f d - 1)) =
      2 * (decelUpdates f d * f) + 1800) :
    s = decelUpdates f d * (2 * f - d * (decelUpdates f d - 1)) / 2 + 900 := by
  have hlast := lt_decelUpdates (g := f) hd (decelUpdates f d - 1)
  generalize decelUpdates f d = n at *
  have hdrop : n * (2 * f - d * (n - 1)) = 2 * (n * f) - d * (n * (n - 1)) := by
    rw [Nat.mul_sub, Nat.mul_left_comm n 2 f, Nat.mul_left_comm n d (n - 1)]
  rw [hdrop]
  cases n with
  | zero => omega
  | succ m =>
      rw [Nat.add_sub_cancel] at *
      have hshort : m * d < f - 900 := hlast.mp (Nat.lt_succ_self m)
      have hbound : d * ((m + 1) * m) ≤ 2 * ((m + 1) * f) := by
        calc d * ((m + 1) * m) = (m + 1) * (m * d) := by ring
          _ ≤ (m + 1) * (2 * f) := Nat.mul_le_mul_left _ (by omega)
          _ = 2 * ((m + 1) * f) := by ring
      omega

/-- For every step frequency and ramp rate that the setters admit: a controlled deceleration
from the step frequency comes to IDLE, and its ticks are within the formula's allowance
exactly when the closed inequality holds. -/
theorem decel_tail_fits_iff {d : Driver} (hrun : d.status.state = .running)
    (hacc : d.status.accelerating = false) (hdec : d.status.decelerating = false)
    (hhz : d.epit.hz = d.stepFreq) (hfreq : 1000 ≤ d.stepFreq.toNat ∧ d.stepFreq.toNat ≤ 200000)
    {rate : Word} (hrate : 10000 ≤ rate.toNat ∧ rate.toNat ≤ 500000)
    (hdelta : d.rampStepFreqDelta = rate / 100) :
    ∃ fs, (∀ fuel, decelUpdates d.stepFreq.toNat (rate.toNat / 100) < fuel →
        d.cncDecelStart.tailFrequencies fuel = some fs) ∧
      (tailSum fs ≤ 100 * (cncBacktrackDecelSteps d.stepFreq rate).toNat ↔
        TailFits d.stepFreq.toNat rate.toNat) := by
  have hd : d.rampStepFreqDelta.toNat = rate.toNat / 100 := by
    rw [hdelta]
    exact BitVec.toNat_udiv
  have hslowing : Slowing d.stepFreq.toNat d.rampStepFreqDelta.toNat 0 d.cncDecelStart.ramp := by
    rw [Driver.ramp_cncDecelStart]
    exact slowing_from_full hrun hacc hdec hhz hfreq
      ⟨by rw [show d.ramp.rampStepFreqDelta = d.rampStepFreqDelta from rfl, hd]; omega,
        by rw [show d.ramp.rampStepFreqDelta = d.rampStepFreqDelta from rfl, hd]; omega⟩
  rw [hd] at hslowing
  have hstart : d.cncDecelStart.epit.hz = d.stepFreq := by
    unfold Driver.cncDecelStart
    rw [if_neg (Bool.eq_false_iff.mp hdec)]
    exact hhz
  obtain ⟨fs, htail, hseries⟩ := tail_of_slowing hslowing (Nat.zero_add _).symm
  rw [hstart] at hseries
  have hclosed := tailSum_closed (by omega) hseries
  refine ⟨fs, htail, ?_⟩
  rw [cncBacktrackDecelSteps_toNat hfreq.2 hrate]
  unfold TailFits
  dsimp only
  rw [← hclosed, ← Nat.le_div_iff_mul_le (by omega)]
  omega

/-- With both in whole kilohertz, the formula allows too little at all but the lowest ramp
rates. -/
theorem not_tailFits_of_whole {a b : Nat} (ha : 0 < a) (hb : 0 < b)
    (hfast : 810000 < 10 * b * (1000 * a + 900)) : ¬TailFits (1000 * a) (1000 * b) := by
  have hd : 1000 * b / 100 = 10 * b := by omega
  have hr : 1000 * b / 1000 = b := by omega
  have hf : (1000 * a + 999) / 1000 = a := by omega
  unfold TailFits
  dsimp only
  rw [hd, hr, hf]
  intro hfits
  have hlast := lt_decelUpdates (g := 1000 * a) (show 0 < 10 * b by omega)
    (decelUpdates (1000 * a) (10 * b) - 1)
  have hend := lt_decelUpdates (g := 1000 * a) (show 0 < 10 * b by omega)
    (decelUpdates (1000 * a) (10 * b))
  generalize decelUpdates (1000 * a) (10 * b) = n at *
  have hreached : 1000 * a - 900 ≤ n * (10 * b) := by omega
  cases n with
  | zero => omega
  | succ m =>
      rw [Nat.add_sub_cancel] at hlast hfits
      have hshort : m * (10 * b) < 1000 * a - 900 := hlast.mp (Nat.lt_succ_self m)
      -- what the inequality says without its divisions
      have hterms : (m + 1) * (2 * (1000 * a) - 10 * b * m) / 2 =
          (m + 1) * (1000 * a - 5 * b * m) := by
        rw [show 2 * (1000 * a) - 10 * b * m = 2 * (1000 * a - 5 * b * m) by
          rw [Nat.mul_sub]; ring_nf, Nat.mul_left_comm, Nat.mul_div_cancel_left _ (by decide)]
      rw [hterms] at hfits
      generalize hs : (m + 1) * (1000 * a - 5 * b * m) + 900 = s at hfits
      have hwhole : s * (2 * b) ≤ 100 * (1000 * a * a) := by
        calc s * (2 * b) ≤ 100 * ((s + 99) / 100) * (2 * b) := Nat.mul_le_mul_right _ (by omega)
          _ = 100 * ((s + 99) / 100 * (2 * b)) := Nat.mul_assoc _ _ _
          _ ≤ 100 * (1000 * a * a) := Nat.mul_le_mul_left _ hfits
      have hnonneg : 5 * b * m ≤ 1000 * a := by
        rw [show m * (10 * b) = 2 * (5 * b * m) by ring] at hshort
        omega
      have hs' : (s : ℤ) = (m + 1) * (1000 * a - 5 * b * m) + 900 := by
        rw [← hs]
        push_cast [hnonneg]
        ring
      have hwhole' : (s : ℤ) * (2 * b) ≤ 100 * (1000 * a * a) := by exact_mod_cast hwhole
      have hx : (0 : ℤ) ≤ (m + 1) * (10 * b) - (1000 * a - 900) := by
        have hcovers : 1000 * a ≤ (m + 1) * (10 * b) + 900 := by omega
        zify at hcovers
        linarith
      have hdx : (0 : ℤ) < (1000 * a - 900) - m * (10 * b) := by
        have hbefore : m * (10 * b) + 900 < 1000 * a := by omega
        zify at hbefore
        linarith
      have hfast' : (810000 : ℤ) < 10 * b * (1000 * a + 900) := by exact_mod_cast hfast
      nlinarith [mul_nonneg hx hdx.le]

/-- At 1000 Hz and 10 kHz/s the tail is 19 ticks, and 50 are allowed for. -/
theorem decel_tail_fits_slow :
    ∃ p fs, System.execute Threads.step Threads.steadyRun Threads.bench = some p ∧
      p.2.shared.cncDecelStart.tailFrequencies 2 = some fs ∧
      tailSum fs ≤ 100 * (cncBacktrackDecelSteps 1000 10000).toNat := by
  have hrun : (System.execute Threads.step Threads.steadyRun Threads.bench).map (fun p =>
      (p.2.shared.status.state, p.2.shared.status.accelerating, p.2.shared.status.decelerating,
        p.2.shared.epit.hz, p.2.shared.stepFreq, p.2.shared.rampStepFreqDelta)) =
      some (.running, false, false, 1000, 1000, 100) := by decide +kernel
  obtain ⟨p, hexec, hseen⟩ := Option.map_eq_some_iff.mp hrun
  simp only [Prod.mk.injEq] at hseen
  obtain ⟨hstate, hacc, hdec, hhz, hfreq, hdelta⟩ := hseen
  have hrange : 1000 ≤ p.2.shared.stepFreq.toNat ∧ p.2.shared.stepFreq.toNat ≤ 200000 := by
    rw [hfreq]
    decide
  have hstored : p.2.shared.rampStepFreqDelta = (10000 : Word) / 100 := hdelta
  obtain ⟨fs, htail, hiff⟩ := decel_tail_fits_iff hstate hacc hdec (hhz.trans hfreq.symm) hrange
    (by decide) hstored
  rw [hfreq] at htail hiff
  exact ⟨p, fs, hexec, htail 2 (by decide), hiff.mpr (by decide)⟩

private def defaultRun : List Threads.Action :=
  Threads.callWrite 0 [1] ++ Threads.call 0 (.start .run) 16

/-- There a tail takes 459 ticks, and 400 are allowed for. -/
theorem decel_tail_fits_false :
    ∃ p fs, System.execute Threads.step defaultRun Threads.bench = some p ∧
      p.2.shared.stepFreq = 10000 ∧ p.2.shared.rampRateHzPerS = 125000 ∧
      p.2.shared.cncDecelStart.tailFrequencies 9 = some fs ∧ tailSum fs = 45900 ∧
      (cncBacktrackDecelSteps 10000 125000).toNat = 400 ∧
      ¬tailSum fs ≤ 100 * (cncBacktrackDecelSteps 10000 125000).toNat := by
  have hrun : ((System.execute Threads.step defaultRun Threads.bench).bind fun p =>
      (p.2.shared.cncDecelStart.tailFrequencies 9).map fun fs =>
        (p.2.shared.stepFreq, p.2.shared.rampRateHzPerS, tailSum fs)) =
      some (10000, 125000, 45900) := by decide +kernel
  obtain ⟨p, hexec, hrest⟩ := Option.bind_eq_some_iff.mp hrun
  obtain ⟨fs, htail, hseen⟩ := Option.map_eq_some_iff.mp hrest
  simp only [Prod.mk.injEq] at hseen
  obtain ⟨hfreq, hrate, hsum⟩ := hseen
  refine ⟨p, fs, hexec, hfreq, hrate, htail, hsum, by decide, ?_⟩
  rw [hsum]
  decide

end Glowforge.Cnc
