import Glowforge.Foundation.Iterate
import Glowforge.Led.Range
import Glowforge.Led.Slow

/-! Whether a fade arrives. From a speed of 16 on the energy descends until the value is at
the target; at the lower speeds a fall arrives too, and a rise arrives if its first push
outlasts the rounding. -/
namespace Glowforge.Led
open Foundation Motion

namespace SmoothData

def timesteps (k : Nat) (d : SmoothData) : SmoothData := (fun d => d.timestepLocked.2)^[k] d

theorem timesteps_succ (k : Nat) (d : SmoothData) :
    timesteps (k + 1) d = (timesteps k d).timestepLocked.2 :=
  Function.iterate_succ_apply' _ k d

def Rearms (d : SmoothData) : Prop := .modTimer ∈ d.timestepLocked.1

/-- A timestep leaves the timer off, with the value at the target up to `epsilon`, and those
before it all start the timer again. -/
def Arrives (d : SmoothData) : Prop :=
  ∃ k, (∀ j < k, (timesteps j d).Rearms) ∧ ¬(timesteps k d).Rearms ∧
    |d.target.intval - (timesteps (k + 1) d).value.intval| ≤ epsilon.intval

theorem rearms_iff (d : SmoothData) : d.Rearms ↔ d.moved.arrived = false := by
  unfold Rearms
  cases harrived : d.moved.arrived with
  | true =>
      rw [timestepLocked_arrived harrived]
      unfold pulse
      split_ifs <;> simp
  | false =>
      rw [timestepLocked_moving harrived]
      simp

theorem moved_of_idle {d : SmoothData} (h : d.pulsing = false) : d.moved = d.integrate := by
  unfold moved updatePulser
  rw [if_neg (Bool.eq_false_iff.mp h)]

theorem Rearms.pending {d : SmoothData} (h : d.Rearms) : d.timestepLocked.2.timer = true := by
  rw [timestepLocked_moving ((rearms_iff d).mp h)]

theorem Rearms.unpended {d : SmoothData} (h : d.Rearms) :
    { d with timer := false }.timestepLocked = d.timestepLocked := by
  have hmoving := (rearms_iff d).mp h
  have hmoved : moved { d with timer := false } = { d.moved with timer := false } := by
    unfold moved updatePulser switch pulsing
    split_ifs <;> rfl
  have hmoving' : (moved { d with timer := false }).arrived = false := by
    rw [hmoved]
    exact hmoving
  rw [timestepLocked_moving hmoving', timestepLocked_moving hmoving, hmoved]
  rfl

theorem execute_timer {d : SmoothData} {k : Nat} (h : ∀ j ≤ k, (timesteps j d).Rearms) :
    ∃ out, System.execute step (List.replicate k .timer) d.timestepLocked.2 =
      some (out, timesteps (k + 1) d) := by
  induction k with
  | zero => exact ⟨[], rfl⟩
  | succ k ih =>
      obtain ⟨out, hexec⟩ := ih fun j hj => h j (Nat.le_succ_of_le hj)
      have hlast := h (k + 1) le_rfl
      have hpending : (timesteps (k + 1) d).timer = true := by
        rw [timesteps_succ]
        exact (h k (Nat.le_succ k)).pending
      have hstep : step (timesteps (k + 1) d) .timer =
          some (timesteps (k + 1) d).timestepLocked := by
        rw [← hlast.unpended]
        exact if_pos hpending
      rw [List.replicate_succ', timesteps_succ (k + 1)]
      refine ⟨_, System.execute_append hexec ?_⟩
      simp [System.execute, hstep]

structure Fading (n : Nat) (target : Fixed) (d : SmoothData) : Prop where
  c : d.c = speedC n
  idle : d.pulsing = false
  target : d.target = target

section
variable {n : Nat} {target : Fixed} {d : SmoothData}

theorem Fading.timestepLocked (hn : n ≤ speedMax) (htarget : |target.intval| ≤ 2 ^ 21)
    (h : d.Fading n target) (hwithin : d.Within n) :
    d.timestepLocked.2.value.intval = target.intval - (d.motion.step n).offset ∧
      (d.Rearms ↔ 256 < |(d.motion.step n).offset|) ∧
      (d.Rearms → d.timestepLocked.2.Fading n target ∧
        d.timestepLocked.2.motion = d.motion.step n) := by
  obtain ⟨-, hmotion, hvalue⟩ := hwithin.exact h.c hn
  have hmoved := moved_of_idle h.idle
  have hoffset : d.target.intval - d.newValue.intval = (d.motion.step n).offset := by
    rw [← hmotion]
    rfl
  have hroom := hwithin.value
  rw [← hvalue] at hroom
  rw [abs_le, ← h.target] at htarget
  have harrived : d.moved.arrived = fixeq d.target d.newValue epsilon := by
    rw [hmoved]
    change (fixeq d.target d.newValue epsilon && !d.pulsing) = _
    rw [h.idle, Bool.not_false, Bool.and_true]
  have hrearms : d.Rearms ↔ 256 < |(d.motion.step n).offset| := by
    rw [rearms_iff, harrived, ← Bool.not_eq_true, fixeq_exact (by omega) (by omega),
      epsilon_intval, hoffset, ← abs_le, not_le]
  have hreached : d.timestepLocked.2.value = d.newValue := by
    cases hlast : d.moved.arrived with
    | true => rw [timestepLocked_arrived hlast, rest_value, hmoved]; rfl
    | false => rw [timestepLocked_moving hlast, hmoved]; rfl
  refine ⟨?_, hrearms, ?_⟩
  · rw [hreached, ← h.target]
    omega
  · intro hagain
    rw [timestepLocked_moving ((rearms_iff d).mp hagain), hmoved]
    exact ⟨⟨h.c, h.idle, h.target⟩, hmotion⟩

variable {I : Motion → Prop}

theorem Fading.arrives (hn : n ≤ speedMax) (htarget : |target.intval| ≤ 2 ^ 21)
    (hwithin : ∀ d : SmoothData, d.Fading n target → I d.motion → d.Within n)
    (measure : Motion → Nat)
    (hstep : ∀ m, I m → 256 < |(m.step n).offset| →
      I (m.step n) ∧ measure (m.step n) < measure m)
    (h : d.Fading n target) (hI : I d.motion) : d.Arrives := by
  have hdescent (d : SmoothData) (hd : d.Fading n target ∧ I d.motion) (hagain : d.Rearms) :
      (d.timestepLocked.2.Fading n target ∧ I d.timestepLocked.2.motion) ∧
        measure d.timestepLocked.2.motion < measure d.motion := by
    obtain ⟨-, hfar, hnext⟩ := hd.1.timestepLocked hn htarget (hwithin d hd.1 hd.2)
    obtain ⟨hfading, hmotion⟩ := hnext hagain
    obtain ⟨hinv, hless⟩ := hstep d.motion hd.2 (hfar.mp hagain)
    rw [hmotion]
    exact ⟨⟨hfading, hinv⟩, hless⟩
  obtain ⟨k, hbefore, ⟨hfading, hinv⟩, hlast⟩ :=
    iterate_stops (I := fun d : SmoothData => d.Fading n target ∧ I d.motion)
      (fun d => measure d.motion) hdescent ⟨h, hI⟩
  obtain ⟨hvalue, hfar, -⟩ := hfading.timestepLocked hn htarget (hwithin _ hfading hinv)
  have hreached : (timesteps (k + 1) d).value.intval =
      target.intval - ((timesteps k d).motion.step n).offset := by
    rw [timesteps_succ]
    exact hvalue
  refine ⟨k, hbefore, hlast, ?_⟩
  rw [hreached, h.target, sub_sub_cancel, epsilon_intval]
  exact not_lt.mp (mt hfar.mpr hlast)

theorem Fading.rearms (hn : n ≤ speedMax) (htarget : |target.intval| ≤ 2 ^ 21)
    (hwithin : ∀ d : SmoothData, d.Fading n target → I d.motion → d.Within n)
    (hstep : ∀ m, I m → 256 < |(m.step n).offset| ∧ I (m.step n))
    (h : d.Fading n target) (hI : I d.motion) (k : Nat) : (timesteps k d).Rearms := by
  have hforever (d : SmoothData) (hd : d.Fading n target ∧ I d.motion) :
      d.Rearms ∧ (d.timestepLocked.2.Fading n target ∧ I d.timestepLocked.2.motion) := by
    obtain ⟨-, hfar, hnext⟩ := hd.1.timestepLocked hn htarget (hwithin d hd.1 hd.2)
    obtain ⟨hstays, hinv⟩ := hstep d.motion hd.2
    have hagain := hfar.mpr hstays
    obtain ⟨hfading, hmotion⟩ := hnext hagain
    rw [hmotion]
    exact ⟨hagain, hfading, hinv⟩
  exact iterate_goes (I := fun d : SmoothData => d.Fading n target ∧ I d.motion) hforever ⟨h, hI⟩ k

end

/-- Where a fade starts: a write of the target finds the motion at rest, as `smooth_activate`
and the end of a fade leave it. -/
structure FromRest (n : Nat) (d : SmoothData) : Prop where
  c : d.c = speedC n
  idle : d.pulsing = false
  velocity : d.velocity = fixedInt 0
  accel : d.accel = fixedInt 0
  value : -256 ≤ d.value.intval ∧ d.value.intval ≤ 1044736
  target : 0 ≤ d.target.intval ∧ d.target.intval ≤ 1044480

def gap (d : SmoothData) : Int := d.target.intval - d.value.intval

variable {n : Nat} {d : SmoothData}

namespace FromRest

theorem fading (h : d.FromRest n) : d.Fading n d.target := ⟨h.c, h.idle, rfl⟩

theorem motion (h : d.FromRest n) : d.motion = still d.gap := by
  have hzero : (fixedInt 0).intval = 0 := by decide
  rw [SmoothData.motion, h.velocity, h.accel, hzero]
  rfl

theorem target_le (h : d.FromRest n) : |d.target.intval| ≤ 2 ^ 21 := by
  have htarget := h.target
  rw [abs_le]
  omega

theorem gap_bounds (h : d.FromRest n) : -1044736 ≤ d.gap ∧ d.gap ≤ 1044736 := by
  have hvalue := h.value
  have htarget := h.target
  unfold gap
  omega

theorem energy_le (h : d.FromRest n) : d.motion.energy n 0 ≤ (swing * n) ^ 2 := by
  have hbounds := h.gap_bounds
  have hgap : |d.gap - 0| ≤ 1044736 := by
    rw [sub_zero, abs_le]
    exact hbounds
  rw [h.motion]
  apply energy_still_le
  have hcast : ((|d.gap - 0| : Int) : ℚ) ≤ 1044736 := by exact_mod_cast hgap
  refine hcast.trans ?_
  unfold swing
  norm_num

theorem within (h : d.FromRest n) (hn : 1 ≤ n) (hn' : n ≤ speedMax) {d' : SmoothData}
    (hfading : d'.Fading n d.target) (henergy : d'.motion.energy n 0 ≤ (swing * n) ^ 2) :
    d'.Within n := by
  have hcentre := h.target_le
  rw [← hfading.target] at hcentre
  have hreach := reach_spec hn hn'
  refine within_of_energy hn hn' (by decide) (by rwa [sub_zero]) ?_ henergy
  refine ⟨le_rfl, hreach.wide.trans hreach.value, ?_⟩
  exact (mul_le_mul_of_nonneg_right hreach.wide (sq_nonneg _)).trans hreach.force

theorem arrives_near (h : d.FromRest n) (hn : 1 ≤ n) (hn' : n ≤ speedMax) (hnear : |d.gap| ≤ 256) :
    d.Arrives := by
  refine h.fading.arrives (I := fun m => m = still d.gap) hn' h.target_le ?_ (fun _ => 0) ?_
    h.motion
  · intro d' hfading hstill
    apply h.within hn hn' hfading
    rw [hstill, ← h.motion]
    exact h.energy_le
  · rintro _ rfl hfar
    have hstays : ((still d.gap).step n).offset = d.gap := by simp [travel]
    rw [hstays] at hfar
    exact absurd hnear (not_le.mpr hfar)

theorem arrives_fast (h : d.FromRest n) (hn : 16 ≤ n) (hn' : n ≤ speedMax)
    (hfar : 256 < |d.gap|) : d.Arrives := by
  have hn₁ : (16 : Int) ≤ n := by exact_mod_cast hn
  have hn₂ : (n : Int) ≤ 160 := by exact_mod_cast hn'
  refine h.fading.arrives
    (I := fun m => m.energy n 0 ≤ (swing * n) ^ 2 ∧ 256 < |m.offset|)
    hn' h.target_le ?_ (charge n) ?_ ⟨h.energy_le, ?_⟩
  · rintro d' hfading ⟨henergy, -⟩
    exact h.within (by omega) hn' hfading henergy
  · rintro m ⟨henergy, hfar₁⟩ hfar₂
    have hbounded := energy_step_bounded (by omega) hn₂ (by decide) le_rfl henergy
    exact ⟨⟨hbounded, hfar₂⟩, charge_step_lt hn₁ hn₂ hfar₁⟩
  · rwa [h.motion]

theorem arrives_falling (h : d.FromRest n) (hn : 1 ≤ n) (hn' : n ≤ 15) (hfar : d.gap ≤ -257) :
    d.Arrives := by
  have hn₁ : (1 : Int) ≤ n := by exact_mod_cast hn
  have hn₂ : (n : Int) ≤ 15 := by exact_mod_cast hn'
  have hmax : n ≤ speedMax := hn'.trans (by decide)
  refine h.fading.arrives (I := Falling n) hmax h.target_le ?_ fallLeft ?_ ?_
  · intro d' hfading hfalling
    exact (hfalling.slight hn₁ hn₂).within hn' (hfading.target ▸ h.target_le)
  · intro m hfalling hfar'
    exact hfalling.step hn₁ hn₂ hfar'
  · rw [h.motion]
    exact falling_still hn₁ hfar h.gap_bounds.1

theorem arrives_rising (h : d.FromRest n) (hn : 4 ≤ n) (hn' : n ≤ 15) (hfar : 257 ≤ d.gap)
    (henough : Enough n d.gap) : d.Arrives := by
  have hn₁ : (4 : Int) ≤ n := by exact_mod_cast hn
  have hn₂ : (n : Int) ≤ 15 := by exact_mod_cast hn'
  have hmax : n ≤ speedMax := hn'.trans (by decide)
  refine h.fading.arrives (I := Gaining n) hmax h.target_le ?_ riseLeft ?_ ?_
  · intro d' hfading hgaining
    exact (hgaining.toRising.slight (by omega) hn₂).within hn' (hfading.target ▸ h.target_le)
  · intro m hgaining hfar'
    exact hgaining.step hn₁ hn₂ hfar'
  · rw [h.motion]
    exact gaining_still (by omega) hfar h.gap_bounds.2 henough

/-- A rise at a speed of 3 or less halts short of the target. -/
theorem rearms_halting (h : d.FromRest n) (hn : 1 ≤ n) (hn' : n ≤ 3) (hfar : 257 ≤ d.gap)
    (k : Nat) : (timesteps k d).Rearms := by
  have hn₁ : (1 : Int) ≤ n := by exact_mod_cast hn
  have hn₂ : (n : Int) ≤ 3 := by exact_mod_cast hn'
  have hmax : n ≤ speedMax := hn'.trans (by decide)
  refine h.fading.rearms (I := Halting n) hmax h.target_le ?_ ?_ ?_ k
  · intro d' hfading hhalting
    exact (hhalting.toRising.slight hn₁ (by omega)).within (by omega)
      (hfading.target ▸ h.target_le)
  · intro m hhalting
    exact hhalting.step hn₁ hn₂
  · rw [h.motion]
    exact halting_still hn₁ hfar h.gap_bounds.2

theorem rearms_stuck (h : d.FromRest n) (hn : 4 ≤ n) (hn' : n ≤ 6) (hfar : 257 ≤ d.gap)
    (hweak : ¬Enough n d.gap) (k : Nat) : (timesteps k d).Rearms := by
  have hn₁ : (4 : Int) ≤ n := by exact_mod_cast hn
  have hn₂ : (n : Int) ≤ 6 := by exact_mod_cast hn'
  have hmax : n ≤ speedMax := hn'.trans (by decide)
  refine h.fading.rearms (I := Stuck n) hmax h.target_le ?_ ?_ ?_ k
  · intro d' hfading hstuck
    exact hstuck.slight.within (by omega) (hfading.target ▸ h.target_le)
  · intro m hstuck
    exact hstuck.step hn₁ hn₂
  · rw [h.motion]
    exact stuck_still hfar h.gap_bounds.2 hweak

end FromRest

/-- The fade is no rise, or the spring of the rise is strong enough. -/
def Catches (n : Nat) (gap : Int) : Prop := gap ≤ 256 ∨ 4 ≤ n ∧ Enough n gap

theorem catches_whole {start target : Int} :
    Catches n (target * 4096 - start * 4096) ↔ target ≤ start ∨ 4 ≤ n := by
  constructor
  · rintro (hfall | ⟨hn, -⟩)
    · exact .inl (by omega)
    · exact .inr hn
  · intro h
    by_cases hfall : target ≤ start
    · exact .inl (by omega)
    · have hn : 4 ≤ n := h.resolve_left hfall
      exact .inr ⟨hn, (enough_whole (by omega)).mono (by omega)⟩

theorem Parked.fromRest {d' : SmoothData} (h : d.Parked) (hc : d'.c = speedC n)
    (hidle : d'.pulsing = false) (hvalue : d'.value = d.value)
    (hvelocity : d'.velocity = d.velocity) (haccel : d'.accel = d.accel)
    (htarget : 0 ≤ d'.target.intval ∧ d'.target.intval ≤ 1044480) : d'.FromRest n := by
  have hzero : (fixedInt 0).intval = 0 := by decide
  refine ⟨hc, hidle, ?_, ?_, ?_, htarget⟩
  · rw [hvelocity]
    exact Fixed.ext (h.velocity.trans hzero.symm)
  · rw [haccel]
    exact Fixed.ext (h.accel.trans hzero.symm)
  · rw [hvalue]
    exact ⟨h.low, h.high⟩

end SmoothData

open SmoothData

/-- A fade arrives exactly where it does not rise, or its spring is strong enough. -/
theorem fade_arrives_iff {n : Nat} {d : SmoothData} (hn : 1 ≤ n) (hn' : n ≤ speedMax)
    (h : d.FromRest n) : d.Arrives ↔ Catches n d.gap := by
  constructor
  · rintro ⟨k, -, hlast, -⟩
    by_contra hweak
    obtain ⟨hrise, hslow⟩ := not_or.mp hweak
    have hfar : 257 ≤ d.gap := not_le.mp hrise
    by_cases hn₄ : 4 ≤ n
    · have hstuck : ¬Enough n d.gap := fun henough => hslow ⟨hn₄, henough⟩
      have hn₆ : n ≤ 6 := by
        by_contra hfast
        exact hstuck ((enough_fast (by omega)).mono hfar)
      exact hlast (h.rearms_stuck hn₄ hn₆ hfar hstuck k)
    · exact hlast (h.rearms_halting hn (by omega) hfar k)
  · intro hcatches
    by_cases hnear : |d.gap| ≤ 256
    · exact h.arrives_near hn hn' hnear
    · have hfar : 256 < |d.gap| := not_le.mp hnear
      by_cases hfast : 16 ≤ n
      · exact h.arrives_fast hfast hn' hfar
      · rcases lt_abs.mp hfar with hrise | hfall
        · obtain ⟨hn₄, henough⟩ := hcatches.resolve_left (not_le.mpr hrise)
          exact h.arrives_rising hn₄ (by omega) hrise henough
        · exact h.arrives_falling hn (by omega) (by omega)

/-- Activated on a LED that is off, with the target set to the top of the table. -/
private def fadeUp (speed : Nat) : SmoothData :=
  { smoothActivate 0 with target := fixedInt 255, c := speedC speed }

private theorem fadeUp_fromRest (speed : Nat) : (fadeUp speed).FromRest speed :=
  (parked_smoothActivate 0).fromRest rfl rfl rfl rfl rfl (fixedInt_table (by decide) (by decide))

private theorem fadeUp_gap (speed : Nat) : (fadeUp speed).gap = 1011712 := by
  have hvalue : (valueFromRawBrightness 0).intval = 32768 := by decide +kernel
  have htarget : (fixedInt 255).intval = 1044480 := by decide
  change (fixedInt 255).intval - (valueFromRawBrightness 0).intval = 1011712
  rw [hvalue, htarget]
  rfl

theorem fade_arrives_iff_up : (fadeUp 4).Arrives := by
  refine (fade_arrives_iff (by decide) (by decide) (fadeUp_fromRest 4)).mpr ?_
  rw [fadeUp_gap]
  exact .inr ⟨le_refl 4, by unfold Enough; decide⟩

theorem fade_arrives_false :
    ¬∀ (n : Nat) (d : SmoothData), 1 ≤ n → n ≤ speedMax → d.FromRest n → d.Arrives := by
  intro h
  have hrest := fadeUp_fromRest 3
  obtain ⟨k, -, hlast, -⟩ := h 3 (fadeUp 3) (by decide) (by decide) hrest
  have hfar : 257 ≤ (fadeUp 3).gap := by
    rw [fadeUp_gap]
    decide
  exact hlast (hrest.rearms_halting (by decide) (by decide) hfar k)

end Glowforge.Led
