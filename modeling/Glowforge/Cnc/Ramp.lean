import Glowforge.Cnc.Control
import Glowforge.Cnc.Steps

/-! Ramps. One frequency is handed from the start of a run to its acceleration, to full
speed, and to the deceleration that ends it: what a step of the driver can do to it, and
from that what the frequencies of a whole run are. -/
namespace Glowforge.Cnc
open Foundation Sdma

/-- What the ramps go by, with the frequency in force. -/
structure Ramp where
  state : CncState
  accelerating : Bool
  decelerating : Bool
  armed : Bool
  stepFreq : Word
  rampStepFreq : Word
  rampStepFreqDelta : Word
  rampTimer : Bool
  hz : Word
  deriving DecidableEq, Repr

def Driver.ramp (d : Driver) : Ramp where
  state := d.status.state
  accelerating := d.status.accelerating
  decelerating := d.status.decelerating
  armed := d.status.waypointArmed
  stepFreq := d.stepFreq
  rampStepFreq := d.rampStepFreq
  rampStepFreqDelta := d.rampStepFreqDelta
  rampTimer := d.rampTimer
  hz := d.epit.hz

def Notice.turns : Notice → Bool
  | .committed _ | .stopped _ => true
  | _ => false

namespace Ramp

def stop (R : Ramp) (nextState : CncState) : Ramp :=
  { R with state := nextState, accelerating := false, decelerating := false, armed := false }

def decelerate (R : Ramp) : Ramp :=
  if R.decelerating then R
  else
    { R with
      rampStepFreq := if R.accelerating then R.rampStepFreq else R.stepFreq
      accelerating := false
      decelerating := true
      rampTimer := true }

def accelerate (R : Ramp) : Ramp :=
  if R.accelerating then R
  else
    { R with
      rampStepFreq := if R.decelerating then R.rampStepFreq else rampMinStepFrequency
      accelerating := true
      decelerating := false
      rampTimer := true }

def commit (R : Ramp) (opts : CncRunOptions) : Ramp :=
  let R := { R with state := .running, armed := decide (opts.numSteps ≠ 0) }
  if opts.accelerate then { R with hz := rampMinStepFrequency }.accelerate
  else { R with hz := R.stepFreq }

def disarm (R : Ramp) : Ramp := { R with armed := false }

def update (R : Ramp) : List Notice × Ramp :=
  let R := { R with rampTimer := false }
  if !R.decelerating && !R.accelerating then ([], R)
  else if R.decelerating then
    if R.rampStepFreq ≤ rampMinStepFrequency then ([.stopped .idle], R.stop .idle)
    else
      let freq :=
        if rampMinStepFrequency + R.rampStepFreqDelta < R.rampStepFreq then
          R.rampStepFreq - R.rampStepFreqDelta
        else rampMinStepFrequency
      ([], { R with rampStepFreq := freq, hz := freq, rampTimer := true })
  else
    let freq := R.rampStepFreq + R.rampStepFreqDelta
    if R.stepFreq ≤ freq then
      ([], { R with
        hz := R.stepFreq
        rampStepFreq := R.stepFreq
        accelerating := false
        decelerating := false })
    else ([], { R with rampStepFreq := freq, hz := freq, rampTimer := true })

/-- The steps that are not the timer's. -/
inductive Step (R : Ramp) : List Notice → Ramp → Prop where
  | keep : Step R [] R
  | commit (opts : CncRunOptions) (hrest : R.state = .idle ∨ R.state = .disabled) :
      Step R [.committed opts] (R.commit opts)
  | stop (nextState : CncState) (hnext : nextState ≠ .running) :
      Step R [.stopped nextState] (R.stop nextState)
  | decelerate (hrun : R.state = .running) : Step R [] R.decelerate
  | disarm : Step R [] R.disarm
  | waypoint (harmed : R.armed = true) : Step R [] R.disarm.decelerate
  | settle (nextState : CncState) (hfrom : R.state ≠ .running) (hnext : nextState ≠ .running) :
      Step R [] { R with state := nextState }
  | stepFrequency (freq : Word) (hrest : R.state ≠ .running)
      (hfreq : 1000 ≤ freq.toNat ∧ freq.toNat ≤ 200000) :
      Step R [] { R with stepFreq := freq, rampStepFreq := freq }
  | rampRate (delta : Word) (hrest : R.state ≠ .running)
      (hdelta : 100 ≤ delta.toNat ∧ delta.toNat ≤ 5000) :
      Step R [] { R with rampStepFreqDelta := delta }

end Ramp

/-! The driver's steps are these. -/

namespace Driver

variable {d d' : Driver} {o : List Notice}

/-- A step of the driver, seen as a step of its ramp. -/
def Ramped (o : List Notice) (d d' : Driver) : Prop :=
  Ramp.Step d.ramp (o.filter Notice.turns) d'.ramp

theorem ramped_keep (ho : o.filter Notice.turns = []) (hsame : d'.ramp = d.ramp) :
    Ramped o d d' := by
  unfold Ramped
  rw [ho, hsame]
  exact .keep

theorem ramp_driverStop (d : Driver) (nextState : CncState) :
    (d.driverStop true nextState).ramp = d.ramp.stop nextState := by
  unfold driverStop cncRampStop
  dsimp only
  split <;> simp [ramp, Ramp.stop, changePins]

theorem ramp_cncDecelStart (d : Driver) : d.cncDecelStart.ramp = d.ramp.decelerate := by
  unfold cncDecelStart Ramp.decelerate
  by_cases h : d.status.decelerating = true
  · rw [if_pos h, if_pos (show d.ramp.decelerating = true from h)]
  · rw [if_neg h, if_neg (show ¬d.ramp.decelerating = true from h)]
    rfl

theorem ramp_cncAccelStart (d : Driver) : d.cncAccelStart.ramp = d.ramp.accelerate := by
  unfold cncAccelStart Ramp.accelerate
  by_cases h : d.status.accelerating = true
  · rw [if_pos h, if_pos (show d.ramp.accelerating = true from h)]
  · rw [if_neg h, if_neg (show ¬d.ramp.accelerating = true from h)]
    rfl

theorem ramp_rampUpdateTaskletFn (d : Driver) :
    d.rampUpdateTaskletFn.1 = d.ramp.update.1 ∧ d.rampUpdateTaskletFn.2.ramp = d.ramp.update.2 := by
  unfold rampUpdateTaskletFn Ramp.update
  dsimp only [ramp]
  split
  · exact ⟨rfl, rfl⟩
  · split
    · split
      · exact ⟨rfl, ramp_driverStop _ .idle⟩
      · exact ⟨rfl, rfl⟩
    · split <;> exact ⟨rfl, rfl⟩

theorem ramp_setPin (d : Driver) (p : PinId) (value : Bool) : (d.setPin p value).ramp = d.ramp := rfl

theorem ramp_commit (d : Driver) (opts : CncRunOptions) :
    (d.commit opts).ramp = d.ramp.commit opts := by
  have hdrive (d : Driver) : d.restoreDrive.ramp = d.ramp := by
    unfold restoreDrive
    split <;> rfl
  have hpulses (d : Driver) : d.beamDetectLatchReset.toggleChargePump.ramp = d.ramp := by
    unfold toggleChargePump beamDetectLatchReset
    rw [ramp_setPin, ramp_setPin, ramp_setPin, ramp_setPin, ramp_setPin]
  have htimer (d : Driver) : (d.startTimer opts).ramp =
      if opts.accelerate then { d.ramp with hz := rampMinStepFrequency }.accelerate
      else { d.ramp with hz := d.ramp.stepFreq } := by
    unfold startTimer
    cases opts.accelerate with
    | true => exact ramp_cncAccelStart _
    | false => rfl
  unfold commit Ramp.commit
  rw [htimer, hpulses, hdrive]
  rfl

theorem ramped_stop (nextState : CncState) (hnext : nextState ≠ .running) :
    Ramped [.stopped nextState] d (d.driverStop true nextState) := by
  unfold Ramped
  rw [ramp_driverStop]
  exact .stop nextState hnext

private theorem ramp_processFaults (d : Driver) : d.processFaults.ramp = d.ramp := by
  obtain ⟨pending, triggered, hframe⟩ := d.processFaults_frame
  rw [hframe]
  rfl

theorem around_ramped {event : Surrounding} {r : List Notice × Driver}
    (h : d.around event = some r) : event ≠ .rampTimer → Ramped r.1 d r.2 := by
  intro hevent
  have hcase := happens h
  generalize r.1 = o, r.2 = d' at hcase ⊢
  cases hcase with
  | stopSettles hstate =>
      have hfrom : d.ramp.state ≠ .running := by
        rw [show d.ramp.state = .underrun from hstate]
        decide
      exact .settle .idle hfrom (by decide)
  | stopDecelerates hstate =>
      unfold Ramped
      rw [ramp_cncDecelStart]
      exact .decelerate hstate
  | halts hstate =>
      unfold Ramped
      rw [ramp_driverStop]
      exact .stop .idle (by decide)
  | frequency hrange hrest =>
      obtain ⟨hlow, hhigh⟩ := not_or.mp hrange
      exact .stepFrequency _ hrest (by bv_omega)
  | @rate hzPerS hrange hrest =>
      obtain ⟨hlow, hhigh⟩ := not_or.mp hrange
      have hlow' : 10000 ≤ hzPerS.toNat := by bv_omega
      have hhigh' : hzPerS.toNat ≤ 500000 := by bv_omega
      have hdelta : (hzPerS / 100).toNat = hzPerS.toNat / 100 := BitVec.toNat_udiv
      exact .rampRate (hzPerS / 100) hrest ⟨by omega, by omega⟩
  | rampEnds => exact absurd rfl hevent
  | rampStops => exact absurd rfl hevent
  | rampSlows => exact absurd rfl hevent
  | rampSpeeds => exact absurd rfl hevent
  | rampArrives => exact absurd rfl hevent
  | streamEnds hmail hstate hstream =>
      unfold Ramped
      rw [ramp_driverStop]
      exact .stop .underrun (by decide)
  | runEnds hmail hstate hstream => exact ramped_stop .idle (by decide)
  | waypoint hmail harmed hdecel => exact .disarm
  | waypointDecelerates hmail harmed hdecel =>
      unfold Ramped
      rw [ramp_cncDecelStart]
      exact .waypoint harmed
  | faultsMore hpending hstate => exact ramped_keep rfl (ramp_processFaults d)
  | faults hpending hstate =>
      unfold Ramped
      rw [ramp_driverStop, ramp_processFaults]
      exact .stop .fault (by decide)
  | _ => exact .keep

end Driver

namespace Call

variable {i : Nat} {d d' : Driver} {p p' : Call} {o : List Notice} {move : Move}

private theorem ramped_regulator (d : Driver) (ok : Bool) :
    (d.regulatorEnable ok).ramp = d.ramp ∧ (d.regulatorDisable ok).ramp = d.ramp := by
  cases ok <;> exact ⟨rfl, rfl⟩

private theorem ramped_powerOn (d : Driver) (ok : Bool) (here : PowerOn → Call) (after : Call)
    (pc : PowerOn) : Driver.Ramped (powerOn d ok here after pc).1 d (powerOn d ok here after pc).2.1 := by
  cases pc with
  | check => exact .keep
  | enable => exact Driver.ramped_keep rfl (ramped_regulator d ok).1
  | pins => exact .keep

private theorem ramped_supplyOff {d : Driver} {ok : Bool} {here : SupplyOff → Call}
    {after : Driver → Outcome} (hafter : ∀ d, Driver.Ramped (after d).1 d (after d).2.1)
    (pc : SupplyOff) :
    Driver.Ramped (supplyOff d ok here after pc).1 d (supplyOff d ok here after pc).2.1 := by
  cases pc with
  | check =>
      unfold supplyOff
      cases d.regulatorIsEnabled with
      | true => exact .keep
      | false => exact hafter d
  | disable =>
      have h := hafter (d.regulatorDisable ok)
      unfold Driver.Ramped at h
      rw [(ramped_regulator d ok).2] at h
      exact h

private theorem ramped_enable (d : Driver) (ok : Bool) (pc : EnablePc) :
    Driver.Ramped (stepEnable d ok pc).1 d (stepEnable d ok pc).2.1 := by
  cases pc with
  | check =>
      simp only [stepEnable]
      split
      · split <;> exact .keep
      · split <;> exact .keep
      · exact .keep
      · exact .keep
      · exact .keep
  | power pc => exact ramped_powerOn d ok _ _ pc
  | commit =>
      simp only [stepEnable]
      split
      · exact .keep
      · split
        · rename_i hfrom
          have hrest : d.ramp.state ≠ .running := by
            intro hrun
            rw [show d.status.state = .running from hrun] at hfrom
            rcases hfrom with hfrom | hfrom <;> cases hfrom
          exact .settle .idle hrest (by decide)
        · exact .keep
  | supplyOff pc =>
      apply ramped_supplyOff
      intro d
      exact .keep
  | pinsOff => exact .keep

private theorem ramped_disable (d : Driver) (ok : Bool) (pc : DisablePc) :
    Driver.Ramped (stepDisable d ok pc).1 d (stepDisable d ok pc).2.1 := by
  have hstop := Driver.ramped_stop (d := d) .disabled (by decide)
  cases pc with
  | check =>
      simp only [stepDisable]
      split
      · exact hstop
      · exact hstop
      · exact hstop
      · exact .keep
      · exact .keep
  | supplyOff pc =>
      apply ramped_supplyOff
      intro d
      exact .keep

private theorem ramped_close (d : Driver) (pc : ClosePc) :
    Driver.Ramped (stepClose d pc).1 d (stepClose d pc).2.1 := by
  cases pc with
  | state =>
      simp only [stepClose]
      split <;> exact .keep
  | halt =>
      have hhalt : d.around .halt = some d.cncHalt := rfl
      exact Driver.around_ramped hhalt (by rintro ⟨⟩)
  | relock =>
      have hlatch : d.around (.setLaserLatch 1) = some (d.cncSetLaserLatch 1) := rfl
      exact Driver.around_ramped hlatch (by rintro ⟨⟩)

private theorem ramped_zStep (d : Driver) (direction : Bool) (pc : ZStepPc) :
    Driver.Ramped (stepZ d direction pc).1 d (stepZ d direction pc).2.1 := by
  cases pc with
  | check =>
      simp only [stepZ]
      split <;> exact .keep
  | _ => exact .keep

theorem next_ramped {r : Outcome} (h : next i d p move = some r) : Driver.Ramped r.1 d r.2.1 := by
  by_cases hoff : p.offRing = true
  · cases p with
    | enable pc =>
        cases move <;> cases h
        exact ramped_enable d _ pc
    | disable pc =>
        cases move <;> cases h
        exact ramped_disable d _ pc
    | close pc =>
        cases move <;> cases h
        exact ramped_close d pc
    | zStep direction pc =>
        cases move <;> cases h
        exact ramped_zStep d direction pc
    | _ => cases hoff
  · obtain ⟨o, d', p'⟩ := r
    have hnext : NextStep i d p move o d' p' := nextStep_of_next h
    cases hnext with
    | begin hbegin => exact .keep
    | invalid e => exact .keep
    | @start opts pc ok o d' p' hstep =>
        cases hstep with
        | committed hclear hgen hstate =>
            unfold Driver.Ramped
            rw [Driver.ramp_commit]
            exact .commit opts hstate
        | powerEnable => exact Driver.ramped_keep rfl (ramped_regulator d ok).1
        | supplyDisable => exact Driver.ramped_keep rfl (ramped_regulator d ok).2
        | _ => exact .keep
    | write hstep => cases hstep <;> exact .keep
    | copy hstep => cases hstep <;> exact .keep
    | clear hstep => cases hstep <;> exact .keep
    | offRing hp hp' hsupply => exact absurd hp hoff

end Call

end Glowforge.Cnc
