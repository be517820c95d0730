import Glowforge.Cnc.Ramp

/-! The frequencies of a run: within bounds at every step, rising while a run accelerates,
and from the moment it decelerates falling until it stops. -/
namespace Glowforge.Cnc
open Foundation Sdma

namespace Ramp

/-- The law of the ramps. -/
structure Lawful (R : Ramp) : Prop where
  freq : 1000 ≤ R.stepFreq.toNat ∧ R.stepFreq.toNat ≤ 200000
  delta : 100 ≤ R.rampStepFreqDelta.toNat ∧ R.rampStepFreqDelta.toNat ≤ 5000
  ramp : 900 ≤ R.rampStepFreq.toNat ∧ R.rampStepFreq.toNat ≤ R.stepFreq.toNat
  rest : R.state ≠ .running → R.accelerating = false ∧ R.decelerating = false ∧ R.armed = false
  one : R.accelerating = true → R.decelerating = false
  climbing : R.accelerating = true → R.rampStepFreq.toNat < R.stepFreq.toNat
  queued : R.accelerating = true ∨ R.decelerating = true → R.rampTimer = true
  hz : R.state = .running →
    R.hz = if R.accelerating || R.decelerating then R.rampStepFreq else R.stepFreq

variable {R R' : Ramp} {o : List Notice}

theorem Lawful.no_wrap (h : R.Lawful) :
    (R.rampStepFreq + R.rampStepFreqDelta).toNat =
      R.rampStepFreq.toNat + R.rampStepFreqDelta.toNat ∧
    (rampMinStepFrequency + R.rampStepFreqDelta).toNat = 900 + R.rampStepFreqDelta.toNat ∧
    (rampMinStepFrequency + R.rampStepFreqDelta < R.rampStepFreq →
      (R.rampStepFreq - R.rampStepFreqDelta).toNat =
        R.rampStepFreq.toNat - R.rampStepFreqDelta.toNat) := by
  obtain ⟨hfreq, hdelta, hramp, -⟩ := h
  have hmin : rampMinStepFrequency.toNat = 900 := rfl
  refine ⟨by bv_omega, by bv_omega, ?_⟩
  intro hlt
  bv_omega

inductive Turn (R : Ramp) : List Notice → Ramp → Prop where
  | steady (hacc : R.accelerating = false) (hdec : R.decelerating = false) :
      Turn R [] { R with rampTimer := false }
  | slower (freq : Word) (hdec : R.decelerating = true) (hfast : 900 < R.rampStepFreq.toNat)
      (hfreq : freq.toNat = max 900 (R.rampStepFreq.toNat - R.rampStepFreqDelta.toNat)) :
      Turn R [] { R with rampStepFreq := freq, hz := freq, rampTimer := true }
  | rest (hdec : R.decelerating = true) (hslow : R.rampStepFreq.toNat ≤ 900) :
      Turn R [.stopped .idle] ({ R with rampTimer := false }.stop .idle)
  | faster (freq : Word) (hacc : R.accelerating = true) (hdec : R.decelerating = false)
      (hfreq : freq.toNat = R.rampStepFreq.toNat + R.rampStepFreqDelta.toNat)
      (hmore : freq.toNat < R.stepFreq.toNat) :
      Turn R [] { R with rampStepFreq := freq, hz := freq, rampTimer := true }
  | full (hacc : R.accelerating = true) (hdec : R.decelerating = false)
      (hfull : R.stepFreq.toNat ≤ R.rampStepFreq.toNat + R.rampStepFreqDelta.toNat) :
      Turn R [] { R with
        rampTimer := false
        hz := R.stepFreq
        rampStepFreq := R.stepFreq
        accelerating := false
        decelerating := false }

theorem turn_update (h : R.Lawful) : Turn R R.update.1 R.update.2 := by
  obtain ⟨hsum, hlimit, hdiff⟩ := h.no_wrap
  unfold update
  dsimp only
  by_cases hdec : R.decelerating = true
  · have hramping : ¬(!R.decelerating && !R.accelerating) = true := by simp [hdec]
    rw [if_neg hramping, if_pos hdec]
    by_cases hslow : R.rampStepFreq ≤ rampMinStepFrequency
    · rw [if_pos hslow]
      exact .rest hdec hslow
    · rw [if_neg hslow]
      apply Turn.slower _ hdec (Nat.lt_of_not_le hslow)
      have hmin : rampMinStepFrequency.toNat = 900 := rfl
      by_cases hlt : rampMinStepFrequency + R.rampStepFreqDelta < R.rampStepFreq
      · have hlt' : 900 + R.rampStepFreqDelta.toNat < R.rampStepFreq.toNat := hlimit ▸ hlt
        rw [if_pos hlt, hdiff hlt]
        omega
      · have hle : ¬900 + R.rampStepFreqDelta.toNat < R.rampStepFreq.toNat := hlimit ▸ hlt
        rw [if_neg hlt]
        omega
  · have hdec' := Bool.eq_false_of_not_eq_true hdec
    by_cases hacc : R.accelerating = true
    · have hramping : ¬(!R.decelerating && !R.accelerating) = true := by simp [hacc]
      rw [if_neg hramping, if_neg hdec]
      by_cases hfull : R.stepFreq ≤ R.rampStepFreq + R.rampStepFreqDelta
      · rw [if_pos hfull]
        exact .full hacc hdec' (hsum ▸ hfull)
      · rw [if_neg hfull]
        exact .faster _ hacc hdec' hsum (Nat.lt_of_not_le hfull)
    · have hacc' := Bool.eq_false_of_not_eq_true hacc
      have hsteady : (!R.decelerating && !R.accelerating) = true := by simp [hdec', hacc']
      rw [if_pos hsteady]
      exact .steady hacc' hdec'

/-! What each step makes of the law. -/

theorem decelerate_of_steady (h : R.decelerating = false) :
    R.decelerate = { R with
      rampStepFreq := if R.accelerating then R.rampStepFreq else R.stepFreq
      accelerating := false
      decelerating := true
      rampTimer := true } := by
  unfold decelerate
  rw [if_neg (Bool.eq_false_iff.mp h)]

theorem Lawful.decelerate (h : R.Lawful) (hrun : R.state = .running) : R.decelerate.Lawful := by
  by_cases hdec : R.decelerating = true
  · rw [Ramp.decelerate, if_pos hdec]
    exact h
  · rw [decelerate_of_steady (Bool.eq_false_of_not_eq_true hdec)]
    refine ⟨h.freq, h.delta, ?_, ?_, ?_, ?_, fun _ => rfl, ?_⟩
    · obtain ⟨hlow, hhigh⟩ := h.freq
      dsimp only
      split
      · exact h.ramp
      · omega
    · exact fun hrest => absurd hrun hrest
    · exact fun hacc => nomatch hacc
    · exact fun hacc => nomatch hacc
    · intro _
      have hhz := h.hz hrun
      dsimp only
      rw [hhz, Bool.eq_false_of_not_eq_true hdec, Bool.or_false]
      rfl

theorem Lawful.disarm (h : R.Lawful) : R.disarm.Lawful :=
  ⟨h.freq, h.delta, h.ramp, fun hrest => ⟨(h.rest hrest).1, (h.rest hrest).2.1, rfl⟩, h.one,
    h.climbing, h.queued, h.hz⟩

theorem Lawful.commit (h : R.Lawful) (opts : CncRunOptions) (hrest : R.state ≠ .running) :
    (R.commit opts).Lawful := by
  obtain ⟨hacc, hdec, -⟩ := h.rest hrest
  obtain ⟨hlow, hhigh⟩ := h.freq
  have hmin : rampMinStepFrequency.toNat = 900 := rfl
  unfold Ramp.commit accelerate
  dsimp only
  rw [hacc, hdec]
  split
  · refine ⟨h.freq, h.delta, ?_, ?_, ?_, ?_, fun _ => rfl, fun _ => rfl⟩
    · change 900 ≤ rampMinStepFrequency.toNat ∧ rampMinStepFrequency.toNat ≤ R.stepFreq.toNat
      omega
    · exact fun hother => absurd rfl hother
    · exact fun _ => rfl
    · intro _
      change rampMinStepFrequency.toNat < R.stepFreq.toNat
      omega
  · refine ⟨h.freq, h.delta, h.ramp, ?_, ?_, ?_, ?_, ?_⟩
    · exact fun hother => absurd rfl hother
    · exact fun _ => rfl
    · exact fun hon => nomatch hon
    · rintro (hon | hon) <;> cases hon
    · exact fun _ => rfl

theorem Lawful.stop (h : R.Lawful) {nextState : CncState} (hnext : nextState ≠ .running) :
    (R.stop nextState).Lawful := by
  refine ⟨h.freq, h.delta, h.ramp, fun _ => ⟨rfl, rfl, rfl⟩, ?_, ?_, ?_,
    fun hrun => absurd hrun hnext⟩
  · exact fun hon => nomatch hon
  · exact fun hon => nomatch hon
  · rintro (hon | hon) <;> cases hon

theorem Lawful.step (h : R.Lawful) (hstep : Step R o R') : R'.Lawful := by
  cases hstep with
  | keep => exact h
  | commit opts hrest =>
      apply h.commit opts
      rcases hrest with hrest | hrest <;> rw [hrest] <;> decide
  | stop nextState hnext => exact h.stop hnext
  | decelerate hrun => exact h.decelerate hrun
  | disarm => exact h.disarm
  | waypoint harmed =>
      apply h.disarm.decelerate
      by_contra hrest
      have hunarmed := (h.rest hrest).2.2
      rw [harmed] at hunarmed
      cases hunarmed
  | settle nextState hfrom hnext =>
      exact ⟨h.freq, h.delta, h.ramp, fun _ => h.rest hfrom, h.one, h.climbing, h.queued,
        fun hrun => absurd hrun hnext⟩
  | stepFrequency freq hrest hfreq =>
      refine ⟨hfreq, h.delta, ⟨?_, Nat.le_refl _⟩, h.rest, h.one, ?_, h.queued,
        fun hrun => absurd hrun hrest⟩
      · exact Nat.le_trans (by decide) hfreq.1
      · exact fun hon => absurd ((h.rest hrest).1.symm.trans hon) Bool.false_ne_true
  | rampRate delta hrest hdelta =>
      exact ⟨h.freq, hdelta, h.ramp, h.rest, h.one, h.climbing, h.queued,
        fun hrun => absurd hrun hrest⟩

theorem Lawful.turn (h : R.Lawful) (hturn : Turn R o R') : R'.Lawful := by
  obtain ⟨hlow, hhigh⟩ := h.ramp
  cases hturn with
  | steady hacc hdec =>
      refine ⟨h.freq, h.delta, h.ramp, h.rest, h.one, h.climbing, ?_, h.hz⟩
      rintro (hon | hon)
      · exact absurd (hacc.symm.trans hon) Bool.false_ne_true
      · exact absurd (hdec.symm.trans hon) Bool.false_ne_true
  | slower freq hdec hfast hfreq =>
      refine ⟨h.freq, h.delta, ?_, h.rest, h.one, ?_, fun _ => rfl, ?_⟩
      · dsimp only
        omega
      · intro hon
        exact absurd ((h.one hon).symm.trans hdec) Bool.false_ne_true
      · intro _
        dsimp only
        rw [hdec, Bool.or_true]
        rfl
  | rest hdec hslow =>
      have hidle : (CncState.idle : CncState) ≠ .running := by decide
      refine ⟨h.freq, h.delta, h.ramp, fun _ => ⟨rfl, rfl, rfl⟩, ?_, ?_, ?_,
        fun hrun => absurd hrun hidle⟩
      · exact fun hon => nomatch hon
      · exact fun hon => nomatch hon
      · rintro (hon | hon) <;> cases hon
  | faster freq hacc hdec hfreq hmore =>
      refine ⟨h.freq, h.delta, ?_, h.rest, h.one, fun _ => hmore, fun _ => rfl, ?_⟩
      · dsimp only
        omega
      · intro _
        dsimp only
        rw [hacc, Bool.true_or]
        rfl
  | full hacc hdec hfull =>
      obtain ⟨hmin, hmax⟩ := h.freq
      refine ⟨h.freq, h.delta, ⟨?_, Nat.le_refl _⟩, ?_, fun _ => rfl, ?_, ?_, fun _ => rfl⟩
      · dsimp only
        omega
      · intro hrest
        exact ⟨rfl, rfl, (h.rest hrest).2.2⟩
      · exact fun hon => nomatch hon
      · rintro (hon | hon) <;> cases hon

/-! A deceleration. -/

/-- `⌈(g - 900) / d⌉`: the updates that a deceleration from frequency `g` programs. -/
def decelUpdates (g d : Nat) : Nat := (g - 900 + d - 1) / d

theorem lt_decelUpdates {g d : Nat} (hd : 0 < d) (k : Nat) :
    k < decelUpdates g d ↔ k * d < g - 900 := by
  unfold decelUpdates
  rw [← Nat.succ_le_iff, Nat.le_div_iff_mul_le hd, Nat.succ_mul]
  omega

/-- A run that has decelerated from `g` for `k` updates. -/
structure Slowing (g d k : Nat) (R : Ramp) : Prop where
  lawful : R.Lawful
  running : R.state = .running
  decelerating : R.decelerating = true
  delta : R.rampStepFreqDelta.toNat = d
  freq : R.rampStepFreq.toNat = max 900 (g - k * d)
  short : k ≤ decelUpdates g d

variable {g d k : Nat}

theorem Slowing.step (h : Slowing g d k R) (hstep : Step R o R')
    (hquiet : ∀ next, .stopped next ∉ o) : Slowing g d k R' := by
  cases hstep with
  | keep => exact h
  | commit opts hrest =>
      rw [h.running] at hrest
      rcases hrest with hrest | hrest <;> cases hrest
  | stop nextState hnext => exact absurd List.mem_cons_self (hquiet nextState)
  | decelerate hrun =>
      rw [Ramp.decelerate, if_pos h.decelerating]
      exact h
  | disarm => exact ⟨h.lawful.disarm, h.running, h.decelerating, h.delta, h.freq, h.short⟩
  | waypoint harmed =>
      rw [Ramp.decelerate, if_pos (show R.disarm.decelerating = true from h.decelerating)]
      exact ⟨h.lawful.disarm, h.running, h.decelerating, h.delta, h.freq, h.short⟩
  | settle nextState hfrom hnext => exact absurd h.running hfrom
  | stepFrequency freq hrest hfreq => exact absurd h.running hrest
  | rampRate delta hrest hdelta => exact absurd h.running hrest

theorem Slowing.turn (h : Slowing g d k R) (hturn : Turn R o R') :
    (k < decelUpdates g d → o = [] ∧ Slowing g d (k + 1) R') ∧
    (k = decelUpdates g d → o = [.stopped .idle] ∧ R'.state = .idle) := by
  obtain ⟨hdmin, hdmax⟩ := h.lawful.delta
  rw [h.delta] at hdmin hdmax
  have hshort := lt_decelUpdates (g := g) (show 0 < d by omega) k
  have hfreq := h.freq
  have hlawful := h.lawful.turn hturn
  cases hturn with
  | steady hacc hdec => exact absurd (hdec.symm.trans h.decelerating) Bool.false_ne_true
  | slower freq hdec hfast hnext =>
      have hmore : k * d < g - 900 := by omega
      have hlt := hshort.mpr hmore
      refine ⟨fun _ => ⟨rfl, hlawful, h.running, h.decelerating, h.delta, ?_, hlt⟩, ?_⟩
      · change freq.toNat = _
        rw [hnext, hfreq, h.delta, Nat.succ_mul]
        omega
      · intro heq
        omega
  | rest hdec hslow =>
      have hdone : ¬k * d < g - 900 := by omega
      exact ⟨fun hlt => absurd (hshort.mp hlt) hdone, fun _ => ⟨rfl, rfl⟩⟩
  | faster freq hacc hdec hnext hmore =>
      exact absurd (hdec.symm.trans h.decelerating) Bool.false_ne_true
  | full hacc hdec hfull => exact absurd (hdec.symm.trans h.decelerating) Bool.false_ne_true

/-! An acceleration. -/

/-- A run that has accelerated for `k` updates. -/
structure Rising (f d k : Nat) (R : Ramp) : Prop where
  lawful : R.Lawful
  running : R.state = .running
  steady : R.decelerating = false
  stepFreq : R.stepFreq.toNat = f
  delta : R.rampStepFreqDelta.toNat = d
  freq : R.rampStepFreq.toNat = min (900 + k * d) f
  accelerating : R.accelerating = true ↔ 900 + k * d < f

def Braking (R : Ramp) : Prop := R.state = .running ∧ R.decelerating = true

theorem Braking.step (h : R.Braking) (hstep : Step R o R') (hquiet : ∀ next, .stopped next ∉ o) :
    R'.Braking := by
  obtain ⟨hrun, hdec⟩ := h
  cases hstep with
  | keep => exact ⟨hrun, hdec⟩
  | commit opts hrest =>
      rw [hrun] at hrest
      rcases hrest with hrest | hrest <;> cases hrest
  | stop nextState hnext => exact absurd List.mem_cons_self (hquiet nextState)
  | decelerate _ =>
      rw [Ramp.decelerate, if_pos hdec]
      exact ⟨hrun, hdec⟩
  | disarm => exact ⟨hrun, hdec⟩
  | waypoint harmed =>
      rw [Ramp.decelerate, if_pos (show R.disarm.decelerating = true from hdec)]
      exact ⟨hrun, hdec⟩
  | settle nextState hfrom hnext => exact absurd hrun hfrom
  | stepFrequency freq hrest hfreq => exact absurd hrun hrest
  | rampRate delta hrest hdelta => exact absurd hrun hrest

theorem Braking.turn (h : R.Braking) (hturn : Turn R o R') (hquiet : ∀ next, .stopped next ∉ o) :
    R'.Braking := by
  obtain ⟨hrun, hdec⟩ := h
  cases hturn with
  | steady hacc hdec' => exact absurd (hdec'.symm.trans hdec) Bool.false_ne_true
  | slower freq _ hfast hnext => exact ⟨hrun, hdec⟩
  | rest _ hslow => exact absurd List.mem_cons_self (hquiet .idle)
  | faster freq hacc hdec' hnext hmore => exact absurd (hdec'.symm.trans hdec) Bool.false_ne_true
  | full hacc hdec' hfull => exact absurd (hdec'.symm.trans hdec) Bool.false_ne_true

theorem braking_decelerate (hrun : R.state = .running) : R.decelerate.Braking := by
  unfold Ramp.decelerate
  split
  · rename_i hdec
    exact ⟨hrun, hdec⟩
  · exact ⟨hrun, rfl⟩

theorem Rising.step {f : Nat} (h : Rising f d k R) (hstep : Step R o R')
    (hquiet : ∀ next, .stopped next ∉ o) : Rising f d k R' ∨ R'.Braking := by
  cases hstep with
  | keep => exact .inl h
  | commit opts hrest =>
      rw [h.running] at hrest
      rcases hrest with hrest | hrest <;> cases hrest
  | stop nextState hnext => exact absurd List.mem_cons_self (hquiet nextState)
  | decelerate hrun => exact .inr (braking_decelerate hrun)
  | disarm =>
      exact .inl ⟨h.lawful.disarm, h.running, h.steady, h.stepFreq, h.delta, h.freq, h.accelerating⟩
  | waypoint harmed => exact .inr (braking_decelerate h.running)
  | settle nextState hfrom hnext => exact absurd h.running hfrom
  | stepFrequency freq hrest hfreq => exact absurd h.running hrest
  | rampRate delta hrest hdelta => exact absurd h.running hrest

theorem Rising.turn {f : Nat} (h : Rising f d k R) (hturn : Turn R o R') :
    Rising f d (k + 1) R' := by
  have hlawful := h.lawful.turn hturn
  have hnextMul : (k + 1) * d = k * d + d := Nat.succ_mul k d
  have hfreq := h.freq
  have hiff := h.accelerating
  have hf := h.stepFreq
  have hd := h.delta
  cases hturn with
  | steady hacc hdec =>
      have hfull : ¬900 + k * d < f := fun hlt => absurd (hacc.symm.trans (hiff.mpr hlt)) Bool.false_ne_true
      refine ⟨hlawful, h.running, h.steady, hf, hd, ?_, ?_⟩
      · change R.rampStepFreq.toNat = _
        omega
      · exact iff_of_false (Bool.eq_false_iff.mp hacc) (by omega)
  | slower freq hdec hfast hnext => exact absurd (h.steady.symm.trans hdec) Bool.false_ne_true
  | rest hdec hslow => exact absurd (h.steady.symm.trans hdec) Bool.false_ne_true
  | faster freq hacc hdec hnext hmore =>
      have hlt := hiff.mp hacc
      refine ⟨hlawful, h.running, h.steady, hf, hd, ?_, ?_⟩
      · change freq.toNat = _
        omega
      · exact iff_of_true hacc (by omega)
  | full hacc hdec hfull =>
      have hlt := hiff.mp hacc
      refine ⟨hlawful, h.running, rfl, hf, hd, ?_, ?_⟩
      · change R.stepFreq.toNat = _
        omega
      · exact iff_of_false Bool.false_ne_true (by omega)

theorem Step.committed {opts : CncRunOptions} (hstep : Step R o R') (hmem : .committed opts ∈ o) :
    (R.state = .idle ∨ R.state = .disabled) ∧ R' = R.commit opts := by
  cases hstep with
  | commit opts' hrest =>
      obtain rfl : opts = opts' := by simpa using hmem
      exact ⟨hrest, rfl⟩
  | stop nextState hnext => simp at hmem
  | _ => cases hmem

theorem rising_commit (h : R.Lawful) (hrest : R.state = .idle ∨ R.state = .disabled)
    {opts : CncRunOptions} (haccelerate : opts.accelerate = true) :
    Rising R.stepFreq.toNat R.rampStepFreqDelta.toNat 0 (R.commit opts) := by
  have hrest' : R.state ≠ .running := by
    rcases hrest with hrest | hrest <;> rw [hrest] <;> decide
  have hlawful := h.commit opts hrest'
  obtain ⟨hacc, hdec, -⟩ := h.rest hrest'
  obtain ⟨hlow, hhigh⟩ := h.freq
  have hmin : rampMinStepFrequency.toNat = 900 := rfl
  have hshape : R.commit opts = { R with
      state := .running
      armed := decide (opts.numSteps ≠ 0)
      hz := rampMinStepFrequency
      rampStepFreq := rampMinStepFrequency
      accelerating := true
      decelerating := false
      rampTimer := true } := by
    unfold Ramp.commit accelerate
    dsimp only
    rw [haccelerate, hacc, hdec]
    rfl
  refine ⟨hlawful, ?_, ?_, ?_, ?_, ?_, ?_⟩
  all_goals rw [hshape]
  · change rampMinStepFrequency.toNat = _
    omega
  · exact iff_of_true rfl (by omega)

theorem slowing_decelerate (h : R.Lawful) (hrun : R.state = .running)
    (hsteady : R.decelerating = false) :
    R.decelerate.rampStepFreq = R.hz ∧
    Slowing R.decelerate.rampStepFreq.toNat R.rampStepFreqDelta.toNat 0 R.decelerate := by
  have hlawful := h.decelerate hrun
  obtain ⟨hlow, hhigh⟩ := hlawful.ramp
  have hhz := h.hz hrun
  refine ⟨?_, hlawful, ?_, ?_, ?_, ?_, Nat.zero_le _⟩
  · rw [decelerate_of_steady hsteady, hhz, hsteady, Bool.or_false]
  · rw [decelerate_of_steady hsteady]
    exact hrun
  · rw [decelerate_of_steady hsteady]
  · rw [decelerate_of_steady hsteady]
  · omega

theorem Step.braked (h : R.Lawful) (hstep : Step R o R') (hsteady : R.decelerating = false)
    (hdec : R'.decelerating = true) :
    R.state = .running ∧ (R' = R.decelerate ∨ R' = R.disarm.decelerate) := by
  cases hstep with
  | decelerate hrun => exact ⟨hrun, .inl rfl⟩
  | waypoint harmed =>
      refine ⟨?_, .inr rfl⟩
      by_contra hrest
      exact absurd ((h.rest hrest).2.2.symm.trans harmed) Bool.false_ne_true
  | commit opts hrest =>
      have hrest' : R.state ≠ .running := by
        rcases hrest with hrest | hrest <;> rw [hrest] <;> decide
      have hacc := (h.rest hrest').1
      unfold Ramp.commit accelerate at hdec
      dsimp only at hdec
      rw [hacc] at hdec
      split at hdec
      · cases hdec
      · exact absurd (hsteady.symm.trans hdec) Bool.false_ne_true
  | stop nextState hnext => cases hdec
  | _ => exact absurd (hsteady.symm.trans hdec) Bool.false_ne_true

theorem Turn.steady_of_steady (hturn : Turn R o R') (hsteady : R.decelerating = false) :
    R'.decelerating = false := by
  cases hturn with
  | rest hdec hslow => rfl
  | full hacc hdec hfull => rfl
  | _ => exact hsteady

theorem Lawful.bounds (h : R.Lawful) (hrun : R.state = .running) :
    900 ≤ R.hz.toNat ∧ R.hz.toNat ≤ R.stepFreq.toNat := by
  obtain ⟨hlow, hhigh⟩ := h.ramp
  obtain ⟨hmin, hmax⟩ := h.freq
  rw [h.hz hrun]
  split
  · exact ⟨hlow, hhigh⟩
  · exact ⟨by omega, Nat.le_refl _⟩

theorem Step.programs (hstep : Step R o R') : R'.hz = R.hz ∨ R'.state = .running := by
  have hbrake (R : Ramp) : R.decelerate.hz = R.hz := by
    unfold Ramp.decelerate
    split <;> rfl
  cases hstep with
  | commit opts hrest =>
      apply Or.inr
      unfold Ramp.commit accelerate
      dsimp only
      split
      · split <;> rfl
      · rfl
  | decelerate hrun => exact .inl (hbrake R)
  | waypoint harmed => exact .inl (hbrake R.disarm)
  | _ => exact .inl rfl

theorem Turn.programs (h : R.Lawful) (hturn : Turn R o R') :
    R'.hz = R.hz ∨ R'.state = .running := by
  have hramps (hon : R.accelerating = true ∨ R.decelerating = true) : R.state = .running := by
    by_contra hrest
    obtain ⟨hacc, hdec, -⟩ := h.rest hrest
    rcases hon with hon | hon
    · exact absurd (hacc.symm.trans hon) Bool.false_ne_true
    · exact absurd (hdec.symm.trans hon) Bool.false_ne_true
  cases hturn with
  | steady hacc hdec => exact .inl rfl
  | slower freq hdec hfast hfreq => exact .inr (hramps (.inr hdec))
  | rest hdec hslow => exact .inl rfl
  | faster freq hacc hdec hfreq hmore => exact .inr (hramps (.inl hacc))
  | full hacc hdec hfull => exact .inr (hramps (.inl hacc))

theorem Turn.uncommitted (hturn : Turn R o R') (opts : CncRunOptions) : .committed opts ∉ o := by
  cases hturn <;> simp

end Ramp

namespace Threads

variable {T : Threads} {a : Action} {r : List Notice × Threads}

def isUpdate : Action → Bool
  | .surround .rampTimer => true
  | _ => false

def updates (as : List Action) : Nat := as.countP isUpdate

theorem ramp_of_step (h : T.step a = some r) :
    (isUpdate a = true ∧ r.1 = T.shared.ramp.update.1 ∧ r.2.shared.ramp = T.shared.ramp.update.2) ∨
    (isUpdate a = false ∧ Driver.Ramped r.1 T.shared r.2.shared) := by
  cases a with
  | thread i move =>
      obtain ⟨d, p, hnext, hr⟩ := Pool.step_thread h
      rw [hr]
      exact .inr ⟨rfl, Call.next_ramped hnext⟩
  | surround event =>
      obtain ⟨d, haround, hr⟩ := Pool.step_surround h
      rw [hr]
      by_cases hevent : event = .rampTimer
      · subst hevent
        simp only [Driver.around] at haround
        split at haround
        · obtain ⟨hnotices, hramp⟩ := T.shared.ramp_rampUpdateTaskletFn
          have hpair := Option.some.inj haround
          rw [hpair] at hnotices hramp
          exact .inl ⟨rfl, hnotices, hramp⟩
        · cases haround
      · have hother : isUpdate (.surround event) = false := by
          cases event with
          | rampTimer => exact absurd rfl hevent
          | _ => rfl
        exact .inr ⟨hother, Driver.around_ramped haround hevent⟩

theorem unstopped_filter {o : List Notice} (h : ∀ next, .stopped next ∉ o) (next : CncState) :
    .stopped next ∉ o.filter Notice.turns :=
  fun hmem => h next (List.mem_of_mem_filter hmem)

theorem lawful_probe (ringMb : Nat) (args : ScriptArgs) (lines : PinId → Bool) (railOn : Bool) :
    (probe ringMb args lines railOn).shared.ramp.Lawful := by
  have hrest := probe_rests ringMb args lines railOn
  refine ⟨?_, ?_, ?_, fun _ => ⟨rfl, rfl, rfl⟩, ?_, ?_, ?_, fun hrun => absurd hrun hrest⟩
  · exact (by decide : 1000 ≤ (10000 : Word).toNat ∧ (10000 : Word).toNat ≤ 200000)
  · exact (by decide : 100 ≤ (1250 : Word).toNat ∧ (1250 : Word).toNat ≤ 5000)
  · exact (by decide : 900 ≤ (10000 : Word).toNat ∧ (10000 : Word).toNat ≤ (10000 : Word).toNat)
  · exact fun hon => nomatch hon
  · exact fun hon => nomatch hon
  · rintro (hon | hon) <;> cases hon

theorem lawful_step (h : T.shared.ramp.Lawful) (hstep : T.step a = some r) :
    r.2.shared.ramp.Lawful := by
  rcases ramp_of_step hstep with ⟨-, -, hramp⟩ | ⟨-, hramped⟩
  · rw [hramp]
    exact h.turn (Ramp.turn_update h)
  · exact h.step hramped

theorem slowing_run {g d k : Nat} {as : List Action} {q : List Notice × Threads}
    (h : Ramp.Slowing g d k T.shared.ramp) (hexec : System.execute step as T = some q)
    (hquiet : ∀ next, .stopped next ∉ q.1) :
    Ramp.Slowing g d (k + updates as) q.2.shared.ramp := by
  induction as generalizing T k q with
  | nil =>
      cases hexec
      exact h
  | cons a as ih =>
      obtain ⟨r₁, r₂, hfirst, hrest, rfl⟩ := System.execute_cons hexec
      have hquiet₁ (next : CncState) : .stopped next ∉ r₁.1 :=
        fun hmem => hquiet next (List.mem_append_left _ hmem)
      have hquiet₂ (next : CncState) : .stopped next ∉ r₂.1 :=
        fun hmem => hquiet next (List.mem_append_right _ hmem)
      rcases ramp_of_step hfirst with ⟨hupdate, hnotices, hramp⟩ | ⟨hother, hramped⟩
      · obtain ⟨hmore, hlast⟩ := h.turn (Ramp.turn_update h.lawful)
        have hshort : k < Ramp.decelUpdates g d := by
          apply Nat.lt_of_le_of_ne h.short
          intro heq
          rw [(hlast heq).1] at hnotices
          rw [hnotices] at hquiet₁
          exact hquiet₁ .idle List.mem_cons_self
        have hnext := (hmore hshort).2
        rw [← hramp] at hnext
        have hcount : updates (a :: as) = updates as + 1 := List.countP_cons_of_pos hupdate
        rw [hcount, Nat.add_comm (updates as) 1, ← Nat.add_assoc]
        exact ih (q := r₂) hnext hrest hquiet₂
      · have hcount : updates (a :: as) = updates as :=
          List.countP_cons_of_neg (by rw [hother]; decide)
        rw [hcount]
        exact ih (q := r₂) (h.step hramped (unstopped_filter hquiet₁)) hrest hquiet₂

theorem braking_run {as : List Action} {q : List Notice × Threads} (hlawful : T.shared.ramp.Lawful)
    (h : T.shared.ramp.Braking) (hexec : System.execute step as T = some q)
    (hquiet : ∀ next, .stopped next ∉ q.1) : q.2.shared.ramp.Braking := by
  induction as generalizing T q with
  | nil =>
      cases hexec
      exact h
  | cons a as ih =>
      obtain ⟨r₁, r₂, hfirst, hrest, rfl⟩ := System.execute_cons hexec
      have hquiet₁ (next : CncState) : .stopped next ∉ r₁.1 :=
        fun hmem => hquiet next (List.mem_append_left _ hmem)
      apply ih (lawful_step hlawful hfirst) _ hrest
        (fun next hmem => hquiet next (List.mem_append_right _ hmem))
      rcases ramp_of_step hfirst with ⟨-, hnotices, hramp⟩ | ⟨-, hramped⟩
      · rw [hramp]
        apply h.turn (Ramp.turn_update hlawful)
        rw [← hnotices]
        exact hquiet₁
      · exact h.step hramped (unstopped_filter hquiet₁)

theorem rising_run {f d k : Nat} {as : List Action} {q : List Notice × Threads}
    (h : Ramp.Rising f d k T.shared.ramp) (hexec : System.execute step as T = some q)
    (hquiet : ∀ next, .stopped next ∉ q.1) (hsteady : q.2.shared.ramp.decelerating = false) :
    Ramp.Rising f d (k + updates as) q.2.shared.ramp := by
  induction as generalizing T k q with
  | nil =>
      cases hexec
      exact h
  | cons a as ih =>
      obtain ⟨r₁, r₂, hfirst, hrest, rfl⟩ := System.execute_cons hexec
      have hquiet₁ (next : CncState) : .stopped next ∉ r₁.1 :=
        fun hmem => hquiet next (List.mem_append_left _ hmem)
      have hquiet₂ (next : CncState) : .stopped next ∉ r₂.1 :=
        fun hmem => hquiet next (List.mem_append_right _ hmem)
      rcases ramp_of_step hfirst with ⟨hupdate, hnotices, hramp⟩ | ⟨hother, hramped⟩
      · have hnext := h.turn (Ramp.turn_update h.lawful)
        rw [← hramp] at hnext
        have hcount : updates (a :: as) = updates as + 1 := List.countP_cons_of_pos hupdate
        rw [hcount, Nat.add_comm (updates as) 1, ← Nat.add_assoc]
        exact ih (q := r₂) hnext hrest hquiet₂ hsteady
      · have hcount : updates (a :: as) = updates as :=
          List.countP_cons_of_neg (by rw [hother]; decide)
        rw [hcount]
        rcases h.step hramped (unstopped_filter hquiet₁) with hrising | hbraking
        · exact ih (q := r₂) hrising hrest hquiet₂ hsteady
        · have hbraked := braking_run (lawful_step h.lawful hfirst) hbraking hrest hquiet₂
          exact absurd (hsteady.symm.trans hbraked.2) Bool.false_ne_true

theorem step_rampTimer {P : Threads} (hlawful : P.shared.ramp.Lawful)
    (hqueued : P.shared.rampTimer = true) :
    ∃ s, P.step (.surround .rampTimer) = some s ∧
      Ramp.Turn P.shared.ramp s.1 s.2.shared.ramp := by
  have haround : P.shared.around .rampTimer = some P.shared.rampUpdateTaskletFn := if_pos hqueued
  have hstep : P.step (.surround .rampTimer) = some
      (P.shared.rampUpdateTaskletFn.1, { P with shared := P.shared.rampUpdateTaskletFn.2 }) := by
    unfold step Pool.step
    simp only [haround, Option.map_some]
  refine ⟨_, hstep, ?_⟩
  obtain ⟨hnotices, hramp⟩ := P.shared.ramp_rampUpdateTaskletFn
  dsimp only
  rw [hnotices, hramp]
  exact Ramp.turn_update hlawful

/-- After `k` updates of a run that accelerates, with no stop and no deceleration so far:
the frequency in force is `900 + k * d`, up to the step frequency, and short of that the
timer is queued and its next update programs a higher one. -/
structure Accelerated (f d k : Nat) (P : Threads) : Prop where
  hz : P.shared.epit.hz.toNat = min (900 + k * d) f
  accelerating : P.shared.status.accelerating = true ↔ 900 + k * d < f
  rises : 900 + k * d < f → ∃ s, P.step (.surround .rampTimer) = some s ∧
    P.shared.epit.hz.toNat < s.2.shared.epit.hz.toNat

/-- After `k` updates of a deceleration from frequency `g`, with no stop so far: it is still
under way, at `g - k * d` down to 900, and the update after `⌈(g - 900) / d⌉` of them, and no
earlier one, stops the run. -/
structure Decelerated (g d k : Nat) (P : Threads) : Prop where
  state : P.shared.status.state = .running
  decelerating : P.shared.status.decelerating = true
  accelerating : P.shared.status.accelerating = false
  hz : P.shared.epit.hz.toNat = max 900 (g - k * d)
  short : k ≤ Ramp.decelUpdates g d
  next : ∃ s, P.step (.surround .rampTimer) = some s ∧
    (k < Ramp.decelUpdates g d → s.1 = [] ∧ s.2.shared.status.state = .running) ∧
    (k = Ramp.decelUpdates g d → s.1 = [.stopped .idle] ∧ s.2.shared.status.state = .idle)

theorem accelerated_of_rising {f d k : Nat} {P : Threads} (h : Ramp.Rising f d k P.shared.ramp) :
    Accelerated f d k P := by
  have hforce (R : Ramp) (hrising : Ramp.Rising f d k R) : R.hz.toNat = min (900 + k * d) f := by
    have hhz := hrising.lawful.hz hrising.running
    have hfreq := hrising.freq
    by_cases hacc : R.accelerating = true
    · rw [hhz, hacc, Bool.true_or]
      exact hfreq
    · have hfull : ¬900 + k * d < f := fun hlt => hacc (hrising.accelerating.mpr hlt)
      rw [hhz, Bool.eq_false_of_not_eq_true hacc, hrising.steady]
      exact hrising.stepFreq.trans (by omega)
  have hnow : P.shared.epit.hz.toNat = min (900 + k * d) f := hforce _ h
  refine ⟨hnow, h.accelerating, fun hlt => ?_⟩
  have hqueued := h.lawful.queued (.inl (h.accelerating.mpr hlt))
  obtain ⟨s, hstep, hturn⟩ := step_rampTimer h.lawful hqueued
  refine ⟨s, hstep, ?_⟩
  have hnext := h.turn hturn
  have hlater : s.2.shared.epit.hz.toNat = min (900 + (k + 1) * d) f := by
    have hhz := hnext.lawful.hz hnext.running
    have hfreq := hnext.freq
    change s.2.shared.epit.hz = _ at hhz
    by_cases hacc : s.2.shared.ramp.accelerating = true
    · rw [hhz, hacc, Bool.true_or]
      exact hfreq
    · have hfull : ¬900 + (k + 1) * d < f := fun hlt => hacc (hnext.accelerating.mpr hlt)
      rw [hhz, Bool.eq_false_of_not_eq_true hacc, hnext.steady]
      exact hnext.stepFreq.trans (by omega)
  have hd : 100 ≤ d := by
    rw [← h.delta]
    exact h.lawful.delta.1
  rw [hnow, hlater, Nat.succ_mul]
  omega

theorem decelerated_of_slowing {g d k : Nat} {P : Threads}
    (h : Ramp.Slowing g d k P.shared.ramp) : Decelerated g d k P := by
  have hqueued := h.lawful.queued (.inr h.decelerating)
  obtain ⟨s, hstep, hturn⟩ := step_rampTimer h.lawful hqueued
  obtain ⟨hmore, hlast⟩ := h.turn hturn
  have hsteady : P.shared.status.accelerating = false := by
    by_contra hacc
    have hno := h.lawful.one (Bool.eq_true_of_not_eq_false hacc)
    exact absurd (hno.symm.trans h.decelerating) Bool.false_ne_true
  refine ⟨h.running, h.decelerating, hsteady, ?_, h.short, s, hstep, ?_, hlast⟩
  · have hhz := h.lawful.hz h.running
    rw [h.decelerating, Bool.or_true] at hhz
    exact (congrArg BitVec.toNat hhz).trans h.freq
  · intro hlt
    obtain ⟨hnotices, hslowing⟩ := hmore hlt
    exact ⟨hnotices, hslowing.running⟩

/-- In whatever order stops, waypoints and updates come: every frequency that is programmed
lies between 900 and the step frequency, and no sum or difference of a ramp wraps; a run
that accelerates rises to exactly the step frequency; and a deceleration, once begun, goes
on from the frequency in force until the update that stops the run. -/
theorem ramps_are_bounded_and_end {ringMb : Nat} {args : ScriptArgs} {lines : PinId → Bool}
    {railOn : Bool} {T : Threads}
    (hreach : System.Reachable step (probe ringMb args lines railOn) T) :
    (T.shared.status.state = .running →
      900 ≤ T.shared.epit.hz.toNat ∧ T.shared.epit.hz.toNat ≤ T.shared.stepFreq.toNat) ∧
    (∀ a r, T.step a = some r → r.2.shared.epit.hz = T.shared.epit.hz ∨
      900 ≤ r.2.shared.epit.hz.toNat ∧ r.2.shared.epit.hz.toNat ≤ r.2.shared.stepFreq.toNat) ∧
    ((T.shared.rampStepFreq + T.shared.rampStepFreqDelta).toNat =
        T.shared.rampStepFreq.toNat + T.shared.rampStepFreqDelta.toNat ∧
      (rampMinStepFrequency + T.shared.rampStepFreqDelta).toNat =
        900 + T.shared.rampStepFreqDelta.toNat ∧
      (rampMinStepFrequency + T.shared.rampStepFreqDelta < T.shared.rampStepFreq →
        (T.shared.rampStepFreq - T.shared.rampStepFreqDelta).toNat =
          T.shared.rampStepFreq.toNat - T.shared.rampStepFreqDelta.toNat)) ∧
    (∀ a r opts, T.step a = some r → .committed opts ∈ r.1 → opts.accelerate = true →
      ∀ as q, System.execute step as r.2 = some q → (∀ next, .stopped next ∉ q.1) →
        q.2.shared.status.decelerating = false →
        Accelerated T.shared.stepFreq.toNat T.shared.rampStepFreqDelta.toNat (updates as) q.2) ∧
    (∀ a r, T.step a = some r → T.shared.status.decelerating = false →
      r.2.shared.status.decelerating = true → r.2.shared.rampStepFreq = T.shared.epit.hz ∧
      ∀ as q, System.execute step as r.2 = some q → (∀ next, .stopped next ∉ q.1) →
        Decelerated T.shared.epit.hz.toNat T.shared.rampStepFreqDelta.toNat (updates as) q.2) := by
  have hlawful : T.shared.ramp.Lawful := by
    apply hreach.invariant (I := fun T => T.shared.ramp.Lawful)
      (lawful_probe ringMb args lines railOn)
    intro T a r h hstep
    exact lawful_step h hstep
  refine ⟨hlawful.bounds, ?_, hlawful.no_wrap, ?_, ?_⟩
  · intro a r hstep
    have hprograms : r.2.shared.ramp.hz = T.shared.ramp.hz ∨ r.2.shared.ramp.state = .running := by
      rcases ramp_of_step hstep with ⟨-, -, hramp⟩ | ⟨-, hramped⟩
      · rw [hramp]
        exact (Ramp.turn_update hlawful).programs hlawful
      · exact Ramp.Step.programs hramped
    exact hprograms.imp id (lawful_step hlawful hstep).bounds
  · intro a r opts hstep hcommitted haccelerate as q hexec hquiet hsteady
    rcases ramp_of_step hstep with ⟨-, hnotices, -⟩ | ⟨-, hramped⟩
    · have hturn := Ramp.turn_update hlawful
      rw [← hnotices] at hturn
      exact absurd hcommitted (hturn.uncommitted opts)
    · have hmem : .committed opts ∈ r.1.filter Notice.turns :=
        List.mem_filter.mpr ⟨hcommitted, rfl⟩
      obtain ⟨hrest, hcommit⟩ := Ramp.Step.committed hramped hmem
      have hrising := Ramp.rising_commit hlawful hrest haccelerate
      rw [← hcommit] at hrising
      have hrun := rising_run hrising hexec hquiet hsteady
      rw [Nat.zero_add] at hrun
      exact accelerated_of_rising hrun
  · intro a r hstep hsteady hdec
    rcases ramp_of_step hstep with ⟨-, -, hramp⟩ | ⟨-, hramped⟩
    · have hturn := Ramp.turn_update hlawful
      rw [← hramp] at hturn
      exact absurd ((hturn.steady_of_steady hsteady).symm.trans hdec) Bool.false_ne_true
    · obtain ⟨hrun, hbraked⟩ := Ramp.Step.braked hlawful hramped hsteady hdec
      have hbegun : r.2.shared.ramp.rampStepFreq = T.shared.epit.hz ∧ Ramp.Slowing
          r.2.shared.ramp.rampStepFreq.toNat T.shared.rampStepFreqDelta.toNat 0 r.2.shared.ramp := by
        rcases hbraked with hbraked | hbraked
        · rw [hbraked]
          exact Ramp.slowing_decelerate hlawful hrun hsteady
        · rw [hbraked]
          exact Ramp.slowing_decelerate hlawful.disarm hrun hsteady
      obtain ⟨hforce, hslowing⟩ := hbegun
      refine ⟨hforce, ?_⟩
      intro as q hexec hquiet
      have hfinal := slowing_run hslowing hexec hquiet
      rw [Nat.zero_add, hforce] at hfinal
      exact decelerated_of_slowing hfinal

/-- A run at 1000 Hz with ramps of 10 kHz/s. -/
def steadyRun : List Action :=
  [.surround (.setStepFrequency 1000), .surround (.setRampRate 10000)] ++ callWrite 0 [1] ++
    call 0 (.start .run) 16

/-- A stop of it takes two updates. -/
theorem ramps_are_bounded_and_end_stopped :
    ∃ p r q, System.execute step steadyRun bench = some p ∧
      p.2.step (.surround .stop) = some r ∧
      System.execute step [.surround .rampTimer] r.2 = some q ∧
      Decelerated 1000 100 1 q.2 ∧ Ramp.decelUpdates 1000 100 = 1 := by
  have hrun : ((System.execute step steadyRun bench).bind fun p =>
      (p.2.step (.surround .stop)).bind fun r =>
        (System.execute step [.surround .rampTimer] r.2).map fun q =>
          (p.2.shared.status.decelerating, r.2.shared.status.decelerating, q.1,
            p.2.shared.epit.hz, p.2.shared.rampStepFreqDelta)) =
      some (false, true, [], 1000, 100) := by decide +kernel
  obtain ⟨p, hexec, hrest⟩ := Option.bind_eq_some_iff.mp hrun
  obtain ⟨r, hstep, hrest⟩ := Option.bind_eq_some_iff.mp hrest
  obtain ⟨q, hupdate, hseen⟩ := Option.map_eq_some_iff.mp hrest
  injection hseen with hbefore hseen
  injection hseen with hafter hseen
  injection hseen with hquiet hseen
  injection hseen with hhz hdelta
  have hreach : System.Reachable step bench p.2 := ⟨steadyRun, p.1, hexec⟩
  obtain ⟨-, hdecelerates⟩ := (ramps_are_bounded_and_end hreach).2.2.2.2 _ r hstep hbefore hafter
  have hstage := hdecelerates _ q hupdate (fun next hmem => by rw [hquiet] at hmem; cases hmem)
  rw [hhz, hdelta] at hstage
  exact ⟨p, r, q, hexec, hstep, hupdate, hstage, by decide⟩

end Threads

end Glowforge.Cnc
