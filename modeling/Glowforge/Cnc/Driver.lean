import Glowforge.Cnc.Pins
import Glowforge.Cnc.Playback

/-! The stepper driver (`cnc.c`): the state machine, its timers, the 40 V supply and the
fault lines, each section under `status_lock` a function of the driver. -/
namespace Glowforge.Cnc
open Foundation Sdma

inductive CncState where
  | idle
  | running
  | disabled
  | fault
  | underrun
  deriving DecidableEq, Repr

structure CncStatus where
  state : CncState
  triggeredFaults : BitVec 8
  decelerating : Bool
  accelerating : Bool
  decelOnInterrupt : Bool
  waypointArmed : Bool
  runningBackward : Bool
  streaming : Bool
  deriving DecidableEq, Repr

/-- Bits in the `triggered_faults` field. -/
inductive FaultCondition where
  | x
  | y1
  | y2
  deriving DecidableEq, Repr

namespace FaultCondition

def all : List FaultCondition := [.x, .y1, .y2]

def bit : FaultCondition → Nat
  | .x => 0
  | .y1 => 1
  | .y2 => 2

/-- `stepper_fault_gpios` -/
def gpio : FaultCondition → PinId
  | .x => .xFault
  | .y1 => .y1Fault
  | .y2 => .y2Fault

end FaultCondition

def fatalFaultConditions : BitVec 8 := 0b111

def rampMinStepFrequency : Word := 900

def laserPwmIdleDuty : BitVec 16 := 65535

/-- The hardware timer that clocks the script. -/
structure Epit where
  running : Bool
  hz : Word
  deriving DecidableEq, Repr

/-- `struct cnc`, with the hardware it drives. A timer is queued or not; the supply is
the use count of its regulator. -/
structure Driver where
  status : CncStatus
  stopGeneration : Word
  pendingFaults : Word
  ignoredFaults : Word
  underrunCount : Word
  stepFreq : Word
  rampStepFreq : Word
  rampStepFreqDelta : Word
  rampTimer : Bool
  chargePumpTimer : Bool
  epit : Epit
  sdmaEvent : Bool
  channelPriority : Word
  pins : Pins
  supply40v : Nat
  laserPwm : BitVec 16
  sdmaMailbox : Word
  buf : Pulsebuf
  pulsebufLock : Option Nat
  deadmanSwitchActive : Bool

/-- What a step shows: a run committed, a stop, the laser latch unlocked, a fault
asserted, the latched faults cleared, the events of a tick, the return of an operation. -/
inductive Notice where
  | committed (opts : CncRunOptions)
  | stopped (next : CncState)
  | unlocked
  | asserted (f : FaultCondition)
  | recovered
  | played (events : List Event)
  | returned (ret : Option Errno)
  deriving DecidableEq, Repr

namespace Driver

def rampRateHzPerS (d : Driver) : Word := d.rampStepFreqDelta * 100

/-! The supply. -/

def regulatorIsEnabled (d : Driver) : Bool := 0 < d.supply40v

/-- A regulator call that fails changes nothing. -/
def regulatorEnable (d : Driver) (ok : Bool) : Driver :=
  if ok then { d with supply40v := d.supply40v + 1 } else d

def regulatorDisable (d : Driver) (ok : Bool) : Driver :=
  if ok then { d with supply40v := d.supply40v - 1 } else d

def changePins (d : Driver) (changeSet : List (PinId × PinValue)) : Driver :=
  { d with pins := ioChangePins d.pins changeSet }

def setPin (d : Driver) (p : PinId) (value : Bool) : Driver :=
  { d with pins := gpioSetValue d.pins p value }

/-! Starting and stopping. `in_softirq()` is true for every caller of `_driver_stop`:
each holds `status_lock`, taken with `spin_lock_bh`, or is a tasklet or a soft timer. -/

def cncRampStop (d : Driver) (inSoftirq : Bool) : Driver :=
  { d with
    rampTimer := d.rampTimer && inSoftirq
    status := { d.status with decelerating := false, accelerating := false } }

def driverStop (d : Driver) (inSoftirq : Bool) (nextState : CncState) : Driver :=
  let d := { d with
    epit := { d.epit with running := false }
    chargePumpTimer := d.chargePumpTimer && inSoftirq
    sdmaEvent := false }
  let d := d.cncRampStop inSoftirq
  let d := { d with
    status := { d.status with
      waypointArmed := false, decelOnInterrupt := false, runningBackward := false } }
  let d :=
    if nextState = .disabled then d.changePins cncShutdownPinChanges
    else d.changePins cncStopPinChanges
  { d with
    status := { d.status with state := nextState }
    stopGeneration := d.stopGeneration + 1 }

def cncDecelStart (d : Driver) : Driver :=
  if d.status.decelerating then d
  else
    { d with
      rampStepFreq := if d.status.accelerating then d.rampStepFreq else d.stepFreq
      status := { d.status with accelerating := false, decelerating := true }
      pins := gpioDirectionInput d.pins .laserOn
      rampTimer := true }

def cncAccelStart (d : Driver) : Driver :=
  if d.status.accelerating then d
  else
    { d with
      rampStepFreq := if d.status.decelerating then d.rampStepFreq else rampMinStepFrequency
      status := { d.status with accelerating := true, decelerating := false }
      rampTimer := true }

/-! Callbacks. -/

/-- `ramp_update_tasklet_fn`; a restart queues the timer again. -/
def rampUpdateTaskletFn (d : Driver) : List Notice × Driver :=
  let d := { d with rampTimer := false }
  if !d.status.decelerating && !d.status.accelerating then ([], d)
  else if d.status.decelerating then
    if d.rampStepFreq ≤ rampMinStepFrequency then ([.stopped .idle], d.driverStop true .idle)
    else
      let freq :=
        if rampMinStepFrequency + d.rampStepFreqDelta < d.rampStepFreq then
          d.rampStepFreq - d.rampStepFreqDelta
        else rampMinStepFrequency
      ([], { d with
        rampStepFreq := freq, epit := { d.epit with hz := freq }, rampTimer := true })
  else
    let freq := d.rampStepFreq + d.rampStepFreqDelta
    if d.stepFreq ≤ freq then
      ([], { d with
        epit := { d.epit with hz := d.stepFreq }
        rampStepFreq := d.stepFreq
        status := { d.status with accelerating := false, decelerating := false } })
    else
      ([], { d with
        rampStepFreq := freq, epit := { d.epit with hz := freq }, rampTimer := true })

def cncSdmaInterrupt (d : Driver) : List Notice × Driver :=
  if d.sdmaMailbox ≠ 0 then
    if d.status.state = .running then
      if d.status.streaming then
        ([.stopped .underrun],
          { d with underrunCount := d.underrunCount + 1 }.driverStop true .underrun)
      else ([.stopped .idle], d.driverStop true .idle)
    else ([], d)
  else if d.status.waypointArmed then
    let d := { d with status := { d.status with waypointArmed := false } }
    if d.status.decelOnInterrupt then
      ([], { d with status := { d.status with decelOnInterrupt := false } }.cncDecelStart)
    else ([], d)
  else ([], d)

def toggleChargePump (d : Driver) : Driver :=
  ((d.setPin .chargePump false).setPin .chargePump true).setPin .chargePump false

def beamDetectLatchReset (d : Driver) : Driver :=
  (d.setPin .beamLatchReset true).setPin .beamLatchReset false

def chargePumpTimerCb (d : Driver) : Driver :=
  if d.status.state ≠ .running then { d with chargePumpTimer := false } else d.toggleChargePump

def cncPanicHandler (d : Driver) : Driver :=
  { d with epit := { d.epit with running := false } }.changePins cncShutdownPinChanges

/-! Faults. -/

/-- One turn of the loop of `fault_tasklet_fn`, with `need_to_halt`. -/
def processFault (r : Driver × Bool) (f : FaultCondition) : Driver × Bool :=
  if bit r.1.pendingFaults f.bit then
    ({ r.1 with
      pendingFaults := lower r.1.pendingFaults f.bit
      status := { r.1.status with triggeredFaults := raise r.1.status.triggeredFaults f.bit } },
      r.2 || bit fatalFaultConditions f.bit)
  else r

def faultTaskletFn (d : Driver) : List Notice × Driver :=
  let r := FaultCondition.all.foldl processFault (d, false)
  if r.2 && decide (r.1.status.state ≠ .fault) then
    ([.stopped .fault], r.1.driverStop true .fault)
  else ([], r.1)

/-- `cnc_fault_irq_handler`, with `cnc_assert_fault`. -/
def cncFaultIrqHandler (d : Driver) (f : FaultCondition) : List Notice × Driver :=
  if gpioGetValue d.pins f.gpio then ([], d)
  else if bit d.ignoredFaults f.bit then ([], d)
  else ([.asserted f], { d with pendingFaults := raise d.pendingFaults f.bit })

/-- The fault lines that read asserted (active low). -/
def liveFaults (d : Driver) : Word :=
  FaultCondition.all.foldl
    (fun m f => if gpioGetValue d.pins f.gpio then m else raise m f.bit) 0

/-! Operations that are one section each. -/

def cncStop (d : Driver) : List Notice × Driver :=
  match d.status.state with
  | .idle | .disabled => ([.returned none], d)
  | .underrun => ([.returned none], { d with status := { d.status with state := .idle } })
  | .fault => ([.returned (some .EPERM)], d)
  | .running => ([.returned none], d.cncDecelStart)

def cncHalt (d : Driver) : List Notice × Driver :=
  match d.status.state with
  | .idle | .disabled => ([.returned none], d)
  | .fault | .underrun => ([.returned (some .EPERM)], d)
  | .running => ([.stopped .idle, .returned none], d.driverStop true .idle)

def cncSetLaserLatch (d : Driver) (value : Int) : List Notice × Driver :=
  let d := d.setPin .laserLatchReset (decide (value ≠ 0))
  if value = 0 then
    if d.status.state ≠ .running ∧ !d.status.accelerating ∧ !d.status.decelerating then
      ([.unlocked], { d with pins := gpioDirectionOutput d.pins .laserOn false })
    else ([.unlocked], d)
  else ([], { d with pins := gpioDirectionInput d.pins .laserOn })

def cncSetStepFrequency (d : Driver) (freq : Word) : List Notice × Driver :=
  if freq < 1000 ∨ freq > 200000 then ([.returned (some .ERANGE)], d)
  else if d.status.state = .running then ([.returned (some .EBUSY)], d)
  else ([.returned none], { d with stepFreq := freq, rampStepFreq := freq })

/-- `cnc_set_ramp_rate_hz_per_s` -/
def cncSetRampRate (d : Driver) (hzPerS : Word) : List Notice × Driver :=
  if hzPerS < 10000 ∨ hzPerS > 500000 then ([.returned (some .ERANGE)], d)
  else if d.status.state = .running then ([.returned (some .EBUSY)], d)
  else ([.returned none], { d with rampStepFreqDelta := hzPerS / 100 })

def setStreaming (d : Driver) (streaming : Bool) : Driver :=
  { d with status := { d.status with streaming := streaming } }

/-- `ignored_faults_store` after its parse. -/
def setIgnoredFaults (d : Driver) (mask : Word) : List Notice × Driver :=
  if mask > 7 then ([.returned (some .EINVAL)], d)
  else ([.returned none], { d with ignoredFaults := mask })

/-! Sections of the operations that take several. -/

/-- The status of a run that begins: a waypoint action is meaningful only when a
waypoint is armed. -/
def setRunning (d : Driver) (opts : CncRunOptions) : Driver :=
  let waypointArmed := decide (opts.numSteps ≠ 0)
  { d with
    status := { d.status with
      state := .running
      waypointArmed := waypointArmed
      decelOnInterrupt := opts.decelerate && waypointArmed
      runningBackward := opts.backward } }

/-- While the latch is unlocked, a run restores the drive of the FIRE line. -/
def restoreDrive (d : Driver) : Driver :=
  if gpioGetValue d.pins .laserLatchReset then d
  else { d with pins := gpioDirectionOutput d.pins .laserOn false }

/-- Timer events on, the timer started, and a priority that starts the script. -/
def startTimer (d : Driver) (opts : CncRunOptions) : Driver :=
  let d := { d with chargePumpTimer := true, sdmaEvent := true, channelPriority := 6 }
  if opts.accelerate then { d with epit := ⟨true, rampMinStepFrequency⟩ }.cncAccelStart
  else { d with epit := ⟨true, d.stepFreq⟩ }

/-- The commit of `cnc_run_with_options`, once its checks have passed. -/
def commit (d : Driver) (opts : CncRunOptions) : Driver :=
  (d.setRunning opts).restoreDrive.beamDetectLatchReset.toggleChargePump.startTimer opts

/-- The 40 V supply and the faults as probe finds them: disabled, unless a fault line
reads asserted. -/
def probe (ringMb : Nat) (args : ScriptArgs) (lines : PinId → Bool) (railOn : Bool) : Driver :=
  let d : Driver := {
    status := ⟨.disabled, 0, false, false, false, false, false, false⟩
    stopGeneration := 0
    pendingFaults := 0
    ignoredFaults := 0
    underrunCount := 0
    stepFreq := 10000
    rampStepFreq := 10000
    rampStepFreqDelta := 1250
    rampTimer := false
    chargePumpTimer := false
    epit := ⟨false, 0⟩
    sdmaEvent := false
    channelPriority := 0
    pins := ioInitGpios lines
    supply40v := if railOn then 1 else 0
    laserPwm := laserPwmIdleDuty
    sdmaMailbox := 0
    buf := cncBufferInit ringMb args
    pulsebufLock := none
    deadmanSwitchActive := false }
  let triggered := (d.liveFaults &&& ~~~d.ignoredFaults).truncate 8
  { d with status := { d.status with
      triggeredFaults := triggered
      state := if triggered ≠ 0 then .fault else .disabled } }

def writesTo (addr : Word) (es : List Event) : List Word :=
  es.filterMap fun e =>
    match e with
    | .write a v => if a = addr then some v else none
    | _ => none

def drivePins (ps : Pins) (w : Word) : Pins :=
  cncSdmaPinSet.foldl (fun ps p => gpioSetValue ps p.1 (bit w p.2)) ps

/-- A timer tick of the script, with what it does to the pins and to the mailbox. -/
def tick (d : Driver) (fuel : Nat) : Option (List Notice × Driver) :=
  if d.epit.running && d.sdmaEvent && decide (d.channelPriority ≠ 0) then
    (d.buf.engine.host (.tick fuel)).map fun r =>
      ([.played r.1], { d with
        buf := { d.buf with engine := r.2 }
        pins := (writesTo d.buf.engine.m.mda r.1).foldl drivePins d.pins
        sdmaMailbox := (writesTo (d.buf.engine.m.word 21) r.1).getLastD d.sdmaMailbox })
  else none

end Driver

end Glowforge.Cnc
