import Glowforge.Led.Energy
import Glowforge.Led.Pulser

/-! Overflow in the LED simulation. The energy of the motion about the middle of the table
bounds every operation, and a timestep keeps it below a reach of its speed, wherever the
target is. Only a write of another speed in mid-fade can leave the energy above the reach
of the new speed. -/
namespace Glowforge.Led
open Foundation Motion

/-- The middle of the correction table, 127.5, in 1/4096. -/
def centre : Int := 522240

/-- The reach that the words of the simulation have room for at a speed. -/
def reach (speed : Nat) : ℚ := min (420 * 4096 * 25600 / (speed : ℚ) ^ 2) (18000 * 4096)

theorem reach_spec {n : Nat} (hn : 1 ≤ n) (hn' : n ≤ SmoothData.speedMax) : Reach n (reach n) := by
  have hnq : (1 : ℚ) ≤ n := by exact_mod_cast hn
  have hnq' : (n : ℚ) ≤ 160 := by exact_mod_cast hn'
  have hsquare : (0 : ℚ) < (n : ℚ) ^ 2 := by positivity
  refine ⟨?_, min_le_right _ _, ?_⟩
  · apply le_min
    · rw [le_div_iff₀ hsquare]
      unfold swing
      nlinarith
    · unfold swing
      norm_num
  · have hforce : reach n * (n : ℚ) ^ 2 ≤ 420 * 4096 * 25600 / (n : ℚ) ^ 2 * (n : ℚ) ^ 2 :=
      mul_le_mul_of_nonneg_right (min_le_left _ _) hsquare.le
    rwa [div_mul_cancel₀ _ hsquare.ne'] at hforce

namespace SmoothData

/-- The energy of the motion about the middle of the table, at a speed. -/
def stored (speed : Nat) (d : SmoothData) : ℚ :=
  d.motion.energy speed (d.target.intval - centre)

def Contained (speed : Nat) (d : SmoothData) : Prop :=
  d.stored speed ≤ (reach speed * speed) ^ 2

theorem stored_congr {d d' : SmoothData} (speed : Nat) (hvalue : d'.value = d.value)
    (hvelocity : d'.velocity = d.velocity) (haccel : d'.accel = d.accel) :
    d'.stored speed = d.stored speed := by
  simp only [stored, energy, phase, motion, Motion.half, Motion.push, hvalue, hvelocity, haccel]
  congr 2
  push_cast
  ring

structure Parked (d : SmoothData) : Prop where
  value : d.target = d.value
  velocity : d.velocity.intval = 0
  accel : d.accel.intval = 0
  low : -256 ≤ d.value.intval
  high : d.value.intval ≤ 1044736

/-- The state between timesteps at speed `n`: the energy is contained, and the target is in
the table or the simulation is at rest on it. -/
structure Held (n : Nat) (d : SmoothData) : Prop where
  low : 1 ≤ n
  high : n ≤ speedMax
  c : d.c = speedC n
  contained : d.Contained n
  target : (0 ≤ d.target.intval ∧ d.target.intval ≤ 1044480) ∨ d.Parked

variable {n : Nat} {d : SmoothData}

theorem Parked.motion (h : d.Parked) : d.motion = still 0 := by
  simp only [SmoothData.motion, h.value, h.velocity, h.accel, sub_self, still]

theorem Parked.contained (h : d.Parked) (hn : 1 ≤ n) (hn' : n ≤ speedMax) : d.Contained n := by
  have hlow := h.low
  have hhigh := h.high
  have hfar : |0 - (d.target.intval - centre)| ≤ 522496 := by
    rw [h.value, abs_le, centre]
    omega
  have hfarq : ((|0 - (d.target.intval - centre)| : Int) : ℚ) ≤ reach n := by
    have hcast : ((|0 - (d.target.intval - centre)| : Int) : ℚ) ≤ 522496 := by exact_mod_cast hfar
    refine hcast.trans (le_trans ?_ (reach_spec hn hn').wide)
    unfold swing
    norm_num
  rw [Contained, stored, h.motion]
  exact energy_still_le hfarq

theorem Held.congr {d' : SmoothData} (h : d.Held n) (hc : d'.c = d.c) (hvalue : d'.value = d.value)
    (hvelocity : d'.velocity = d.velocity) (haccel : d'.accel = d.accel)
    (htarget : d'.target = d.target ∨ 0 ≤ d'.target.intval ∧ d'.target.intval ≤ 1044480) :
    d'.Held n := by
  refine ⟨h.low, h.high, hc.trans h.c, ?_, ?_⟩
  · rw [Contained, stored_congr n hvalue hvelocity haccel]
    exact h.contained
  · rcases htarget with hsame | hwithin
    · rcases h.target with hwithin | hparked
      · exact .inl (by rwa [hsame])
      · refine .inr ⟨by rw [hsame, hparked.value, hvalue], by rw [hvelocity, hparked.velocity],
          by rw [haccel, hparked.accel], ?_, ?_⟩
        · rw [hvalue]
          exact hparked.low
        · rw [hvalue]
          exact hparked.high
    · exact .inl hwithin

theorem fixedInt_table {i : Int} (hlow : 0 ≤ i) (hhigh : i ≤ 255) :
    0 ≤ (fixedInt i).intval ∧ (fixedInt i).intval ≤ 1044480 := by
  rw [fixedInt_exact (by omega) (by omega)]
  omega

theorem updatePulser_target (d : SmoothData) :
    d.updatePulser.target = d.target ∨
      0 ≤ d.updatePulser.target.intval ∧ d.updatePulser.target.intval ≤ 1044480 := by
  unfold updatePulser switch
  split
  · split
    · exact .inr (fixedInt_table (by decide) (by decide))
    · split
      · exact .inr (fixedInt_table (by decide) (by decide))
      · exact .inl rfl
  · exact .inl rfl

theorem updatePulser_motion (d : SmoothData) :
    d.updatePulser.c = d.c ∧ d.updatePulser.value = d.value ∧
      d.updatePulser.velocity = d.velocity ∧ d.updatePulser.accel = d.accel := by
  unfold updatePulser switch
  split_ifs <;> exact ⟨rfl, rfl, rfl, rfl⟩

theorem Held.updatePulser (h : d.Held n) : d.updatePulser.Held n := by
  obtain ⟨hc, hvalue, hvelocity, haccel⟩ := d.updatePulser_motion
  exact h.congr hc hvalue hvelocity haccel d.updatePulser_target

theorem Held.target_bounds (h : d.Held n) :
    -256 ≤ d.target.intval ∧ d.target.intval ≤ 1044736 := by
  rcases h.target with hwithin | hparked
  · omega
  · rw [hparked.value]
    exact ⟨hparked.low, hparked.high⟩

theorem Held.shift_le (h : d.Held n) : |d.target.intval - centre| ≤ 522496 := by
  have hbounds := h.target_bounds
  rw [abs_le, centre]
  omega

theorem Held.within (h : d.Held n) : d.Within n := by
  apply within_of_energy h.low h.high h.shift_le _ (reach_spec h.low h.high) h.contained
  rw [sub_sub_cancel]
  decide

theorem Held.integrate (h : d.Held n) : d.integrate.Held n := by
  obtain ⟨-, hmotion, hvalue⟩ := h.within.exact h.c h.high
  refine ⟨h.low, h.high, h.c, ?_, ?_⟩
  · have hn₁ : (1 : Int) ≤ n := by exact_mod_cast h.low
    have hn₂ : (n : Int) ≤ 160 := by exact_mod_cast h.high
    have hstored : d.integrate.stored n = (d.motion.step n).energy n (d.target.intval - centre) := by
      rw [stored, hmotion]
      rfl
    rw [Contained, hstored]
    exact energy_step_bounded hn₁ hn₂ h.shift_le (reach_spec h.low h.high).wide h.contained
  · rcases h.target with hwithin | hparked
    · exact .inl hwithin
    · have hstill : (still 0).step n = still 0 := by
        simp [still, Motion.step, Motion.spring, Motion.damping, Motion.travel, Motion.half,
          Motion.push]
      rw [hparked.motion, hstill] at hmotion
      rw [hparked.motion] at hvalue
      have hkept : d.newValue = d.value := Fixed.ext (hvalue.trans (add_zero _))
      have hlow := hparked.low
      have hhigh := hparked.high
      rw [← hkept] at hlow hhigh
      exact .inr ⟨hparked.value.trans hkept.symm, congrArg Motion.velocity hmotion,
        congrArg Motion.accel hmotion, hlow, hhigh⟩

/-- What a timestep on this state shows is the entry of the table at its exact value. -/
structure Faithful (d : SmoothData) : Prop where
  exact : d.updatePulser.Exact
  shown : .ledSetBrightness (correctionTable.entries.getD
    (min 255 (max 0 ((d.value.intval + d.updatePulser.motion.travel) / 4096))).toNat 0) ∈
      d.timestepLocked.1

theorem Held.faithful (h : d.Held n) : d.Faithful := by
  obtain ⟨hexact, -, hvalue⟩ := h.updatePulser.within.exact h.updatePulser.c h.high
  rw [d.updatePulser_motion.2.1] at hvalue
  refine ⟨hexact, ?_⟩
  have hclamped : d.moved.clampedValue =
      (min 255 (max 0 ((d.value.intval + d.updatePulser.motion.travel) / 4096))).toNat := by
    have hipart : s16 d.moved.value.ipart =
        (d.value.intval + d.updatePulser.motion.travel) / 4096 := by
      rw [← hvalue, ← Fixed.ipart_eq]
      exact hexact.clamp
    rw [clampedValue, hipart]
    split_ifs <;> omega
  rw [← hclamped]
  cases harrived : d.moved.arrived with
  | true =>
      rw [timestepLocked_arrived harrived]
      exact List.mem_append_right _ List.mem_cons_self
  | false =>
      rw [timestepLocked_moving harrived]
      exact List.mem_append_right _ List.mem_cons_self

theorem Held.rest (hmoved : d.moved.Held n) (h : d.updatePulser.Held n)
    (harrived : d.moved.arrived = true) : d.moved.rest.Parked := by
  obtain ⟨-, -, hvalue⟩ := h.within.exact h.c h.high
  have hroom := h.within.value
  have htarget := hmoved.target_bounds
  have hnew : d.moved.value.intval = d.updatePulser.value.intval + d.updatePulser.motion.travel :=
    hvalue
  have hclose : fixeq d.moved.target d.moved.value epsilon = true :=
    ((Bool.and_eq_true _ _).mp harrived).1
  rw [fixeq_exact (by omega) (by omega), epsilon_intval] at hclose
  have hbounds : -256 ≤ d.moved.value.intval ∧ d.moved.value.intval ≤ 1044736 := by
    rcases hmoved.target with hwithin | hparked
    · omega
    · exact ⟨hparked.low, hparked.high⟩
  have hzero : (fixedInt 0).intval = 0 := by decide
  exact ⟨rfl, hzero, hzero, hbounds.1, hbounds.2⟩

theorem Held.timestepLocked (h : d.Held n) : d.timestepLocked.2.Held n := by
  have hmoved : d.moved.Held n := h.updatePulser.integrate
  cases harrived : d.moved.arrived with
  | false =>
      rw [timestepLocked_moving harrived]
      exact hmoved.congr rfl rfl rfl rfl (.inl rfl)
  | true =>
      rw [timestepLocked_arrived harrived]
      have hparked := hmoved.rest h.updatePulser harrived
      exact ⟨h.low, h.high, hmoved.c, hparked.contained h.low h.high, .inr hparked⟩

theorem Held.setSpeed (h : d.Held n) {speed : Nat} (hlow : 1 ≤ speed) (hhigh : speed ≤ speedMax)
    (hcontained : d.Contained speed) : { d with c := speedC speed }.Held speed := by
  have hsame : SmoothData.stored speed { d with c := speedC speed } = d.stored speed :=
    stored_congr speed rfl rfl rfl
  refine ⟨hlow, hhigh, rfl, hsame.le.trans hcontained, ?_⟩
  rcases h.target with hwithin | hparked
  · exact .inl hwithin
  · exact .inr ⟨hparked.value, hparked.velocity, hparked.accel, hparked.low, hparked.high⟩

theorem Held.setPulsePeriods (h : d.Held n) (on off : Int) : (d.setPulsePeriods on off).Held n :=
  h.congr rfl rfl rfl rfl (.inl rfl)

end SmoothData

/-- A speed write finds the energy contained at the new speed. -/
def SpeedContained (d : SmoothData) (e : Event) : Prop :=
  ∀ v : ULong, e = .speedStore (.ok v) → 1 ≤ v.toNat → v.toNat ≤ SmoothData.speedMax →
    d.Contained v.toNat

def NeverOverflows (d : SmoothData) (e : Event) : Prop :=
  ∀ d', Sets d e d' → step d e = some d'.timestepLocked → d'.Faithful

theorem SmoothData.Held.sets {n : Nat} {d d' : SmoothData} {e : Event} (h : d.Held n) (hsets : Sets d e d')
    (hspeed : SpeedContained d e) : ∃ n', d'.Held n' := by
  cases hsets with
  | target v hv =>
      have htable := SmoothData.fixedInt_table (Int.natCast_nonneg v.toNat) (by omega)
      exact ⟨n, h.congr rfl rfl rfl rfl (.inr htable)⟩
  | speed v hv hmax =>
      exact ⟨v.toNat, h.setSpeed hv hmax (hspeed v rfl hv hmax)⟩
  | pulseOn v => exact ⟨n, h.setPulsePeriods _ _⟩
  | pulseOff v => exact ⟨n, h.setPulsePeriods _ _⟩
  | timer hpending => exact ⟨n, h.congr rfl rfl rfl rfl (.inl rfl)⟩

theorem SmoothData.Held.step {n : Nat} {d : SmoothData} {e : Event} {r : List Obs × SmoothData} (h : d.Held n)
    (hspeed : SpeedContained d e) (hstep : step d e = some r) : ∃ n', r.2.Held n' := by
  rcases step_cases hstep with ⟨d', hsets, rfl⟩ | ⟨d', hsets, -, rfl, -⟩ | ⟨err, rfl⟩
  · obtain ⟨n', hn'⟩ := h.sets hsets hspeed
    exact ⟨n', hn'.timestepLocked⟩
  · exact h.sets hsets hspeed
  · exact ⟨n, h⟩

theorem parked_smoothActivate (brightness : Nat) :
    (SmoothData.smoothActivate brightness).Parked := by
  have hsize : correctionTable.entries.size = 256 := by decide +kernel
  have hindex : correctionTable.search brightness < 256 :=
    hsize ▸ CorrectionTable.search_lt (by rw [hsize]; decide)
  have htable : 0 ≤ (valueFromRawBrightness brightness).intval ∧
      (valueFromRawBrightness brightness).intval ≤ 1044480 :=
    SmoothData.fixedInt_table (Int.natCast_nonneg _) (by omega)
  have hzero : (fixedInt 0).intval = 0 := by decide
  refine ⟨rfl, hzero, hzero, ?_, ?_⟩
  · change -256 ≤ (valueFromRawBrightness brightness).intval
    omega
  · change (valueFromRawBrightness brightness).intval ≤ 1044736
    omega

theorem held_smoothActivate (brightness : Nat) :
    (SmoothData.smoothActivate brightness).Held 64 := by
  have hc : fixedInt 16 = SmoothData.speedC 64 := by decide
  have hparked := parked_smoothActivate brightness
  exact ⟨by decide, by decide, hc, hparked.contained (by decide) (by decide), .inr hparked⟩

/-- While every speed write finds the energy contained at the new speed, no timestep
overflows, and each shows the brightness of its exact value. -/
theorem led_never_overflows (brightness : Nat) (es : List Event)
    (hspeed : System.Along step SpeedContained es (SmoothData.smoothActivate brightness)) :
    System.Along step NeverOverflows es (SmoothData.smoothActivate brightness) := by
  have hinv := System.Along.invariant (I := fun d => ∃ n, SmoothData.Held n d)
    (fun d e r hd he hstep => hd.elim fun n hn => hn.step he hstep)
    ⟨64, held_smoothActivate brightness⟩ hspeed
  apply hinv.mono
  rintro d e ⟨he, n, hn⟩ d' hsets -
  obtain ⟨n', hn'⟩ := hn.sets hsets he
  exact hn'.faithful

/-- A speed write that finds the simulation at rest is free. -/
theorem SmoothData.Parked.speedContained {d : SmoothData} (h : d.Parked) (e : Event) :
    SpeedContained d e := by
  rintro v rfl hv hmax
  exact h.contained hv hmax

private def fade : List Event := [.speedStore (.ok 160), .targetStore (.ok 255), .timer]

/-- In the middle of a fast fade the speed is set to the lowest, and the motion runs past
the end of the table; then it is set to the highest again. -/
private def coast : List Event := fade ++ .speedStore (.ok 1) :: List.replicate 20 .timer

theorem led_never_overflows_false :
    ¬∀ (brightness : Nat) (es : List Event),
      System.Along step NeverOverflows es (SmoothData.smoothActivate brightness) := by
  intro h
  have halong := h 0 (coast ++ [.speedStore (.ok 160)])
  have hrun : ((System.execute step coast (SmoothData.smoothActivate 0)).map fun q =>
      let d := { q.2 with c := SmoothData.speedC 160 }.updatePulser
      decide (d.newAccel.intval = d.fspring.intval - d.fdampingNeg.intval)) = some false := by
    decide +kernel
  obtain ⟨q, hexec, hseen⟩ := Option.map_eq_some_iff.mp hrun
  have hlast := (halong.split hexec).2.1 { q.2 with c := SmoothData.speedC 160 }
    (.speed 160 (by decide) (by decide)) rfl
  exact of_decide_eq_false hseen hlast.exact.accel

theorem led_never_overflows_fade :
    System.Along step NeverOverflows fade (SmoothData.smoothActivate 0) ∧
      (System.execute step fade (SmoothData.smoothActivate 0)).isSome = true := by
  refine ⟨led_never_overflows 0 fade ⟨(parked_smoothActivate 0).speedContained _, ?_⟩, by decide +kernel⟩
  intro r _
  refine ⟨?_, ?_⟩
  · rintro v ⟨⟩
  · intro r' _
    refine ⟨?_, fun _ _ => trivial⟩
    rintro v ⟨⟩

end Glowforge.Led
