import Glowforge.Cnc.Surroundings

/-! The run control of the driver: its state machine, the flags of the run in flight,
the latched and the pending faults, and the FIRE line with its latch. Whatever the
threads and the callbacks do, they take it through the steps below. -/
namespace Glowforge.Cnc
open Foundation Sdma

structure Control where
  status : CncStatus
  stopGeneration : Word
  pendingFaults : Word
  epitRunning : Bool
  sdmaEvent : Bool
  laserOn : Bool
  latch : Pin
  deriving DecidableEq, Repr

/-- `laserOn` is whether `PIN_LASER_ON` is driven. -/
def Driver.control (d : Driver) : Control where
  status := d.status
  stopGeneration := d.stopGeneration
  pendingFaults := d.pendingFaults
  epitRunning := d.epit.running
  sdmaEvent := d.sdmaEvent
  laserOn := (d.pins .laserOn).output
  latch := d.pins .laserLatchReset

def Notice.loud : Notice → Bool
  | .played _ | .returned _ => false
  | _ => true

namespace Control

/-- All lines low, FIRE undriven; a shutdown locks the latch as well. -/
def shutdown (c : Control) : Control :=
  { c with laserOn := false, latch := c.latch.directionOutput true }

def stop (c : Control) (nextState : CncState) : Control :=
  let c := if nextState = .disabled then c.shutdown else { c with laserOn := false }
  { c with
    status := { c.status with
      state := nextState
      decelerating := false
      accelerating := false
      waypointArmed := false
      decelOnInterrupt := false
      runningBackward := false }
    stopGeneration := c.stopGeneration + 1
    epitRunning := false
    sdmaEvent := false }

def decelerate (c : Control) : Control :=
  if c.status.decelerating then c
  else
    { c with
      status := { c.status with accelerating := false, decelerating := true }
      laserOn := false }

def waypoint (c : Control) : Control :=
  let c' := { c with status := { c.status with waypointArmed := false } }
  if c.status.decelOnInterrupt then
    decelerate { c' with status := { c'.status with decelOnInterrupt := false } }
  else c'

def accelerate (c : Control) : Control :=
  if c.status.accelerating then c
  else { c with status := { c.status with accelerating := true, decelerating := false } }

def setRunning (c : Control) (opts : CncRunOptions) : Control :=
  let waypointArmed := decide (opts.numSteps ≠ 0)
  { c with status := { c.status with
    state := .running
    waypointArmed := waypointArmed
    decelOnInterrupt := opts.decelerate && waypointArmed
    runningBackward := opts.backward } }

def commit (c : Control) (opts : CncRunOptions) : Control :=
  let c := { c.setRunning opts with
    laserOn := c.laserOn || !c.latch.value
    epitRunning := true
    sdmaEvent := true }
  if opts.accelerate then c.accelerate else c

def setLatch (c : Control) (value : Bool) : Control :=
  { c with latch := { c.latch with data := value } }

/-- Unlocking restores drive, but in a run or a ramp. -/
def unlock (c : Control) : Control :=
  if c.status.state ≠ .running ∧ !c.status.accelerating ∧ !c.status.decelerating then
    { c.setLatch false with laserOn := true }
  else c.setLatch false

def lock (c : Control) : Control := { c.setLatch true with laserOn := false }

def setState (c : Control) (state : CncState) : Control :=
  { c with status := { c.status with state := state } }

def latchFault (c : Control) (f : FaultCondition) : Control :=
  if bit c.pendingFaults f.bit then
    { c with
      pendingFaults := lower c.pendingFaults f.bit
      status := { c.status with triggeredFaults := raise c.status.triggeredFaults f.bit } }
  else c

def latchFaults (c : Control) : Control := FaultCondition.all.foldl latchFault c

theorem latchFault_frame (c : Control) (f : FaultCondition) :
    ∃ pending triggered, c.latchFault f = { c with
      pendingFaults := pending
      status := { c.status with triggeredFaults := triggered } } := by
  unfold latchFault
  split
  · exact ⟨_, _, rfl⟩
  · exact ⟨c.pendingFaults, c.status.triggeredFaults, rfl⟩

theorem latchFaults_frame (c : Control) :
    ∃ pending triggered, c.latchFaults = { c with
      pendingFaults := pending
      status := { c.status with triggeredFaults := triggered } } := by
  unfold latchFaults
  generalize FaultCondition.all = fs
  induction fs generalizing c with
  | nil => exact ⟨c.pendingFaults, c.status.triggeredFaults, rfl⟩
  | cons f fs ih =>
      obtain ⟨pending, triggered, hfirst⟩ := latchFault_frame c f
      rw [List.foldl_cons, hfirst]
      exact ih _

section Fields

variable (c : Control) (nextState : CncState) (opts : CncRunOptions)

@[simp] theorem latchFaults_state : c.latchFaults.status.state = c.status.state := by
  obtain ⟨pending, triggered, hframe⟩ := c.latchFaults_frame
  rw [hframe]

@[simp] theorem latchFaults_stopGeneration : c.latchFaults.stopGeneration = c.stopGeneration := by
  obtain ⟨pending, triggered, hframe⟩ := c.latchFaults_frame
  rw [hframe]

@[simp] theorem stop_stopGeneration :
    (c.stop nextState).stopGeneration = c.stopGeneration + 1 := by
  unfold stop
  by_cases hnext : nextState = .disabled
  · simp only [if_pos hnext]
    rfl
  · simp only [if_neg hnext]

@[simp] theorem decelerate_state : c.decelerate.status.state = c.status.state := by
  unfold decelerate
  split <;> rfl

@[simp] theorem decelerate_stopGeneration : c.decelerate.stopGeneration = c.stopGeneration := by
  unfold decelerate
  split <;> rfl

@[simp] theorem decelerate_runningBackward :
    c.decelerate.status.runningBackward = c.status.runningBackward := by
  unfold decelerate
  split <;> rfl

@[simp] theorem decelerate_decelOnInterrupt :
    c.decelerate.status.decelOnInterrupt = c.status.decelOnInterrupt := by
  unfold decelerate
  split <;> rfl

@[simp] theorem waypoint_state : c.waypoint.status.state = c.status.state := by
  unfold waypoint
  split
  · exact decelerate_state _
  · rfl

@[simp] theorem waypoint_stopGeneration : c.waypoint.stopGeneration = c.stopGeneration := by
  unfold waypoint
  split
  · exact decelerate_stopGeneration _
  · rfl

@[simp] theorem waypoint_runningBackward :
    c.waypoint.status.runningBackward = c.status.runningBackward := by
  unfold waypoint
  split
  · exact decelerate_runningBackward _
  · rfl

@[simp] theorem accelerate_stopGeneration : c.accelerate.stopGeneration = c.stopGeneration := by
  unfold accelerate
  split <;> rfl

@[simp] theorem commit_stopGeneration : (c.commit opts).stopGeneration = c.stopGeneration := by
  unfold commit
  split
  · exact accelerate_stopGeneration _
  · rfl

@[simp] theorem unlock_status : c.unlock.status = c.status := by
  unfold unlock
  split <;> rfl

@[simp] theorem unlock_stopGeneration : c.unlock.stopGeneration = c.stopGeneration := by
  unfold unlock
  split <;> rfl

end Fields

inductive Step (c : Control) : List Notice → Control → Prop where
  | keep : Step c [] c
  | commit (opts : CncRunOptions) (hclear : c.status.triggeredFaults = 0)
      (hstate : c.status.state = .idle ∨ c.status.state = .disabled) :
      Step c [.committed opts] (c.commit opts)
  | stop (nextState : CncState)
      (hfrom : c.status.state ≠ .fault ∨ c.status.decelerating = true)
      (hnext : nextState ≠ .running ∧ nextState ≠ .fault) :
      Step c [.stopped nextState] (c.stop nextState)
  | decelerate (hrun : c.status.state = .running) : Step c [] c.decelerate
  | waypoint (harmed : c.status.waypointArmed = true) : Step c [] c.waypoint
  | accelerated (hacc : c.status.accelerating = true) (hdec : c.status.decelerating = false) :
      Step c [] { c with
        status := { c.status with accelerating := false, decelerating := false } }
  | unlock : Step c [.unlocked] c.unlock
  | lock : Step c [] c.lock
  | shutdown : Step c [] c.shutdown
  | panic : Step c [] { c.shutdown with epitRunning := false }
  | recover (hstate : c.status.state = .fault) :
      Step c [.recovered] { c with status := { c.status with triggeredFaults := 0 } }
  | enable (hclear : c.status.triggeredFaults &&& fatalFaultConditions = 0)
      (hstate : c.status.state = .disabled ∨ c.status.state = .fault) :
      Step c [] (c.setState .idle)
  | acknowledge (hstate : c.status.state = .underrun) : Step c [] (c.setState .idle)
  | streaming (b : Bool) : Step c [] { c with status := { c.status with streaming := b } }
  | assert (f : FaultCondition) :
      Step c [.asserted f] { c with pendingFaults := raise c.pendingFaults f.bit }
  | latch (hstate : c.status.state = .fault) : Step c [] c.latchFaults
  | fault (hstate : c.status.state ≠ .fault) :
      Step c [.stopped .fault] (c.latchFaults.stop .fault)

end Control

namespace Driver

theorem control_changePins_startup (d : Driver) :
    (d.changePins cncStartupPinChanges).control = d.control := by
  have hlaser : ioChangePins d.pins cncStartupPinChanges .laserOn = d.pins .laserOn :=
    ioChangePins_of_notMem (by decide)
  have hlatch : ioChangePins d.pins cncStartupPinChanges .laserLatchReset =
      d.pins .laserLatchReset := ioChangePins_of_notMem (by decide)
  simp only [control, changePins, hlaser, hlatch]

theorem control_changePins_stop (d : Driver) :
    (d.changePins cncStopPinChanges).control = { d.control with laserOn := false } := by
  have hlaser : ioChangePins d.pins cncStopPinChanges .laserOn =
      PinValue.hiZ.apply (d.pins .laserOn) := ioChangePins_of_mem (by decide) (by decide)
  have hlatch : ioChangePins d.pins cncStopPinChanges .laserLatchReset =
      d.pins .laserLatchReset := ioChangePins_of_notMem (by decide)
  simp only [control, changePins, hlaser, hlatch]
  rfl

theorem control_changePins_shutdown (d : Driver) :
    (d.changePins cncShutdownPinChanges).control = d.control.shutdown := by
  have hlaser : ioChangePins d.pins cncShutdownPinChanges .laserOn =
      PinValue.hiZ.apply (d.pins .laserOn) := ioChangePins_of_mem (by decide) (by decide)
  have hlatch : ioChangePins d.pins cncShutdownPinChanges .laserLatchReset =
      PinValue.high.apply (d.pins .laserLatchReset) := ioChangePins_of_mem (by decide) (by decide)
  simp only [control, changePins, hlaser, hlatch]
  rfl

theorem control_setPin (d : Driver) {p : PinId} (value : Bool) (hp : p ≠ .laserLatchReset) :
    (d.setPin p value).control = d.control := by
  have hlatch : gpioSetValue d.pins p value .laserLatchReset = d.pins .laserLatchReset :=
    Function.update_of_ne hp.symm _ _
  have hlaser : (gpioSetValue d.pins p value .laserOn).output = (d.pins .laserOn).output := by
    unfold gpioSetValue
    by_cases h : p = .laserOn
    · subst h
      rw [Function.update_self]
    · rw [Function.update_of_ne (Ne.symm h)]
  simp only [control, setPin, hlatch, hlaser]

theorem control_driverStop (d : Driver) (inSoftirq : Bool) (nextState : CncState) :
    (d.driverStop inSoftirq nextState).control = d.control.stop nextState := by
  unfold driverStop Control.stop
  by_cases h : nextState = .disabled
  · simp only [if_pos h]
    have hpins := control_changePins_shutdown d
    simp only [control, changePins, Control.shutdown, Control.mk.injEq] at hpins
    simp only [control, changePins, cncRampStop, Control.shutdown, hpins]
  · simp only [if_neg h]
    have hpins := control_changePins_stop d
    simp only [control, changePins, Control.mk.injEq] at hpins
    simp only [control, changePins, cncRampStop, hpins]

theorem control_cncDecelStart (d : Driver) : d.cncDecelStart.control = d.control.decelerate := by
  unfold cncDecelStart Control.decelerate
  by_cases h : d.status.decelerating = true
  · rw [if_pos h, if_pos (show d.control.status.decelerating = true from h)]
  · rw [if_neg h, if_neg (show ¬d.control.status.decelerating = true from h)]
    have hlaser : gpioDirectionInput d.pins .laserOn .laserOn =
        (d.pins .laserOn).directionInput := Function.update_self _ _ _
    have hlatch : gpioDirectionInput d.pins .laserOn .laserLatchReset =
        d.pins .laserLatchReset := Function.update_of_ne (by decide) _ _
    simp only [control, hlaser, hlatch]
    rfl

theorem control_cncAccelStart (d : Driver) : d.cncAccelStart.control = d.control.accelerate := by
  unfold cncAccelStart Control.accelerate
  by_cases h : d.status.accelerating = true
  · rw [if_pos h, if_pos (show d.control.status.accelerating = true from h)]
  · rw [if_neg h, if_neg (show ¬d.control.status.accelerating = true from h)]
    rfl

theorem control_restoreDrive (d : Driver) : d.restoreDrive.control =
    { d.control with laserOn := d.control.laserOn || !d.control.latch.value } := by
  have hvalue : d.control.latch.value = gpioGetValue d.pins .laserLatchReset := rfl
  rw [restoreDrive, hvalue]
  cases gpioGetValue d.pins .laserLatchReset with
  | true => rw [if_pos rfl, Bool.not_true, Bool.or_false]
  | false =>
      have hlaser : gpioDirectionOutput d.pins .laserOn false .laserOn =
          (d.pins .laserOn).directionOutput false := Function.update_self _ _ _
      have hlatch : gpioDirectionOutput d.pins .laserOn false .laserLatchReset =
          d.pins .laserLatchReset := Function.update_of_ne (by decide) _ _
      rw [if_neg Bool.false_ne_true, Bool.not_false, Bool.or_true]
      simp only [control, hlaser, hlatch]
      rfl

theorem control_pulsePins (d : Driver) :
    d.beamDetectLatchReset.toggleChargePump.control = d.control := by
  unfold toggleChargePump beamDetectLatchReset
  rw [control_setPin _ _ (by decide), control_setPin _ _ (by decide),
    control_setPin _ _ (by decide), control_setPin _ _ (by decide),
    control_setPin _ _ (by decide)]

theorem control_startTimer (d : Driver) (opts : CncRunOptions) : (d.startTimer opts).control =
    let c := { d.control with epitRunning := true, sdmaEvent := true }
    if opts.accelerate then c.accelerate else c := by
  unfold startTimer
  cases opts.accelerate with
  | true => exact control_cncAccelStart _
  | false => rfl

theorem control_commit (d : Driver) (opts : CncRunOptions) :
    (d.commit opts).control = d.control.commit opts := by
  have hrun : (d.setRunning opts).control = d.control.setRunning opts := rfl
  rw [commit, control_startTimer, control_pulsePins, control_restoreDrive, hrun]
  rfl

theorem control_processFault (r : Driver × Bool) (f : FaultCondition) :
    (processFault r f).1.control = r.1.control.latchFault f := by
  unfold processFault Control.latchFault
  by_cases h : bit r.1.pendingFaults f.bit = true
  · rw [if_pos h, if_pos (show bit r.1.control.pendingFaults f.bit = true from h)]
    rfl
  · rw [if_neg h, if_neg (show ¬bit r.1.control.pendingFaults f.bit = true from h)]

theorem control_directionInput (d : Driver) :
    ({ d with pins := gpioDirectionInput d.pins .laserOn } : Driver).control =
      { d.control with laserOn := false } := by
  have hlaser : gpioDirectionInput d.pins .laserOn .laserOn =
      (d.pins .laserOn).directionInput := Function.update_self _ _ _
  have hlatch : gpioDirectionInput d.pins .laserOn .laserLatchReset =
      d.pins .laserLatchReset := Function.update_of_ne (by decide) _ _
  simp only [control, hlaser, hlatch]
  rfl

theorem control_directionOutput (d : Driver) (value : Bool) :
    ({ d with pins := gpioDirectionOutput d.pins .laserOn value } : Driver).control =
      { d.control with laserOn := true } := by
  have hlaser : gpioDirectionOutput d.pins .laserOn value .laserOn =
      (d.pins .laserOn).directionOutput value := Function.update_self _ _ _
  have hlatch : gpioDirectionOutput d.pins .laserOn value .laserLatchReset =
      d.pins .laserLatchReset := Function.update_of_ne (by decide) _ _
  simp only [control, hlaser, hlatch]
  rfl

theorem control_setLatch (d : Driver) (value : Bool) :
    (d.setPin .laserLatchReset value).control = d.control.setLatch value := by
  have hlatch : gpioSetValue d.pins .laserLatchReset value .laserLatchReset =
      { d.pins .laserLatchReset with data := value } := Function.update_self _ _ _
  have hlaser : gpioSetValue d.pins .laserLatchReset value .laserOn = d.pins .laserOn :=
    Function.update_of_ne (by decide) _ _
  simp only [control, setPin, hlatch, hlaser]
  rfl

theorem control_foldl_processFault (fs : List FaultCondition) (r : Driver × Bool) :
    (fs.foldl processFault r).1.control = fs.foldl Control.latchFault r.1.control := by
  induction fs generalizing r with
  | nil => rfl
  | cons f fs ih => rw [List.foldl_cons, List.foldl_cons, ih, control_processFault]

theorem control_processFaults (d : Driver) : d.processFaults.control = d.control.latchFaults :=
  control_foldl_processFault FaultCondition.all (d, false)

end Driver

end Glowforge.Cnc
