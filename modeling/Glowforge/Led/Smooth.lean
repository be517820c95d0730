import Glowforge.Foundation.System
import Glowforge.Led.Lookup

/-! The LED trigger that fades smoothly (`ledtrig_smooth.c`): a critically damped
mass-spring system, moved on by its timer and by the stores of its attributes. -/
namespace Glowforge.Led

inductive Errno where
  | EINVAL
  | ERANGE
  deriving DecidableEq, Repr

abbrev ULong := BitVec 32

/-- `struct ledtrig_smooth_data`, with the timer as whether it is pending. -/
structure SmoothData where
  timer : Bool
  target : Fixed
  c : Fixed
  pulseOnCount : Int
  pulseOffCount : Int
  value : Fixed
  velocity : Fixed
  accel : Fixed
  pulseCounter : Int
  deriving DecidableEq

/-- What a step shows: a target set by the pulser, the brightness set, the timer started, or an
error return. -/
inductive Obs where
  | pulse (target : Fixed)
  | ledSetBrightness (brightness : Nat)
  | modTimer
  | failed (e : Errno)
  deriving DecidableEq

def valueFromRawBrightness (rawBrightness : Nat) : Fixed :=
  fixedInt (correctionTable.search rawBrightness)

namespace SmoothData

def smoothActivate (brightness : Nat) : SmoothData where
  timer := false
  target := valueFromRawBrightness brightness
  c := fixedInt 16
  pulseOnCount := 0
  pulseOffCount := 0
  value := valueFromRawBrightness brightness
  velocity := fixedInt 0
  accel := fixedInt 0
  pulseCounter := 0

def pulsing (d : SmoothData) : Bool := d.pulseOnCount ≠ 0 && d.pulseOffCount ≠ 0

def switch (d : SmoothData) : SmoothData :=
  if d.pulseCounter = 0 then { d with target := fixedInt 255 }
  else if d.pulseCounter = d.pulseOnCount then
    { d with target := fixedInt 0, pulseCounter := s32 (-d.pulseOffCount) }
  else d

def pulse (d : SmoothData) : List Obs :=
  if d.pulsing then
    if d.pulseCounter = 0 then [.pulse (fixedInt 255)]
    else if d.pulseCounter = d.pulseOnCount then [.pulse (fixedInt 0)]
    else []
  else []

/-- The state after `update_pulser`, which returns whether it was pulsing. -/
def updatePulser (d : SmoothData) : SmoothData :=
  if d.pulsing then { d.switch with pulseCounter := s32 (d.switch.pulseCounter + 1) } else d

/-- The counter is brought inside of the new periods, on the side it is on. -/
def repairedCounter (counter on off : Int) : Int :=
  if on ≠ 0 ∧ counter > on then on
  else if off ≠ 0 ∧ counter < s32 (-off) then s32 (-(s32 (off - 1)))
  else counter

/-- The state after `set_pulse_periods`, which returns whether both are set. -/
def setPulsePeriods (d : SmoothData) (on off : Int) : SmoothData :=
  { d with
    pulseOnCount := on
    pulseOffCount := off
    pulseCounter := if on = 0 ∨ off = 0 then 0 else repairedCounter d.pulseCounter on off }

/-- If m=1, then k = (c^2)/4. -/
def k (d : SmoothData) : Fixed := fixdiv4 (fixmul d.c d.c)

def offset (d : SmoothData) : Fixed := fixsub d.target d.value

/-- Fspring = k * (target - value[t]) -/
def fspring (d : SmoothData) : Fixed := fixmul d.offset d.k

/-- -Fdamping = c * v[t] -/
def fdampingNeg (d : SmoothData) : Fixed := fixmul d.c d.velocity

def newAccel (d : SmoothData) : Fixed := fixsub d.fspring d.fdampingNeg

def halfV (d : SmoothData) : Fixed := fixadd d.velocity (fixmul (fixdiv2 d.accel) dt)

/-- x[t+dt] = x[t] + halfV*dt -/
def newValue (d : SmoothData) : Fixed := fixadd d.value (fixmul d.halfV dt)

def newVelocity (d : SmoothData) : Fixed := fixadd d.halfV (fixmul (fixdiv2 d.newAccel) dt)

def integrate (d : SmoothData) : SmoothData :=
  { d with value := d.newValue, velocity := d.newVelocity, accel := d.newAccel }

/-- The position in the correction table: the integer part, cut to 16 bits and clamped. -/
def clampedValue (d : SmoothData) : Nat :=
  if s16 d.value.ipart < 0 then 0
  else if s16 d.value.ipart > 255 then 255
  else (s16 d.value.ipart).toNat

def brightness (d : SmoothData) : Nat := correctionTable.entries.getD d.clampedValue 0

def arrived (d : SmoothData) : Bool := fixeq d.target d.value epsilon && !d.pulsing

def rest (d : SmoothData) : SmoothData :=
  { d with target := d.value, velocity := fixedInt 0, accel := fixedInt 0 }

/-- The state in `timestep_locked` once the value has been moved on. -/
def moved (d : SmoothData) : SmoothData := d.updatePulser.integrate

def timestepLocked (d : SmoothData) : List Obs × SmoothData :=
  if d.moved.arrived then (d.pulse ++ [.ledSetBrightness d.moved.brightness], d.moved.rest)
  else
    (d.pulse ++ [.ledSetBrightness d.moved.brightness, .modTimer], { d.moved with timer := true })

def targetStore (d : SmoothData) : Except Errno ULong → List Obs × SmoothData
  | .error e => ([.failed e], d)
  | .ok newTarget =>
      if newTarget.toNat > 255 then ([.failed .EINVAL], d)
      else timestepLocked { d with target := fixedInt newTarget.toNat }

/-- "speed" is a 6.2 fixed-point unsigned integer. -/
def speedCShift : Nat := 2

def speedMax : Nat := 160

def speedC (speed : Nat) : Fixed := toFixed ((speed : Int) <<< (fracBits - speedCShift))

def speedStore (d : SmoothData) : Except Errno ULong → List Obs × SmoothData
  | .error e => ([.failed e], d)
  | .ok newSpeed =>
      if newSpeed.toNat = 0 ∨ newSpeed.toNat > speedMax then ([.failed .EINVAL], d)
      else timestepLocked { d with c := speedC newSpeed.toNat }

def pulseCount (msecs : ULong) : Int := s32 (msecs.toNat / msecsPerUpdate : Nat)

def wake (d : SmoothData) : List Obs × SmoothData :=
  if d.pulsing then d.timestepLocked else ([], d)

def pulseOnStore (d : SmoothData) : Except Errno ULong → List Obs × SmoothData
  | .error e => ([.failed e], d)
  | .ok newOn => (d.setPulsePeriods (pulseCount newOn) d.pulseOffCount).wake

def pulseOffStore (d : SmoothData) : Except Errno ULong → List Obs × SmoothData
  | .error e => ([.failed e], d)
  | .ok newOff => (d.setPulsePeriods d.pulseOnCount (pulseCount newOff)).wake

end SmoothData

inductive Event where
  | targetStore (value : Except Errno ULong)
  | speedStore (value : Except Errno ULong)
  | pulseOnStore (value : Except Errno ULong)
  | pulseOffStore (value : Except Errno ULong)
  | timer

/-- Each step holds the lock; a pending timer may expire between any two. -/
def step (d : SmoothData) : Event → Option (List Obs × SmoothData)
  | .targetStore value => some (d.targetStore value)
  | .speedStore value => some (d.speedStore value)
  | .pulseOnStore value => some (d.pulseOnStore value)
  | .pulseOffStore value => some (d.pulseOffStore value)
  | .timer => if d.timer then some { d with timer := false }.timestepLocked else none

namespace SmoothData

@[simp] theorem rest_value (d : SmoothData) : d.rest.value = d.value := rfl
@[simp] theorem rest_c (d : SmoothData) : d.rest.c = d.c := rfl
@[simp] theorem rest_target (d : SmoothData) : d.rest.target = d.value := rfl
@[simp] theorem rest_velocity (d : SmoothData) : d.rest.velocity = fixedInt 0 := rfl
@[simp] theorem rest_accel (d : SmoothData) : d.rest.accel = fixedInt 0 := rfl

@[simp] theorem setPulsePeriods_pulseOnCount (d : SmoothData) (on off : Int) :
    (d.setPulsePeriods on off).pulseOnCount = on := rfl
@[simp] theorem setPulsePeriods_pulseOffCount (d : SmoothData) (on off : Int) :
    (d.setPulsePeriods on off).pulseOffCount = off := rfl

theorem pulsing_iff (d : SmoothData) :
    d.pulsing = true ↔ d.pulseOnCount ≠ 0 ∧ d.pulseOffCount ≠ 0 := by
  simp [pulsing]

theorem timestepLocked_arrived {d : SmoothData} (h : d.moved.arrived = true) :
    d.timestepLocked = (d.pulse ++ [.ledSetBrightness d.moved.brightness], d.moved.rest) :=
  if_pos h

theorem timestepLocked_moving {d : SmoothData} (h : d.moved.arrived = false) :
    d.timestepLocked = (d.pulse ++ [.ledSetBrightness d.moved.brightness, .modTimer],
      { d.moved with timer := true }) :=
  if_neg (Bool.eq_false_iff.mp h)

end SmoothData

inductive Sets (d : SmoothData) : Event → SmoothData → Prop where
  | target (n : ULong) (h : n.toNat ≤ 255) :
      Sets d (.targetStore (.ok n)) { d with target := fixedInt n.toNat }
  | speed (n : ULong) (h : 1 ≤ n.toNat) (hmax : n.toNat ≤ SmoothData.speedMax) :
      Sets d (.speedStore (.ok n)) { d with c := SmoothData.speedC n.toNat }
  | pulseOn (n : ULong) :
      Sets d (.pulseOnStore (.ok n))
        (d.setPulsePeriods (SmoothData.pulseCount n) d.pulseOffCount)
  | pulseOff (n : ULong) :
      Sets d (.pulseOffStore (.ok n))
        (d.setPulsePeriods d.pulseOnCount (SmoothData.pulseCount n))
  | timer (h : d.timer = true) : Sets d .timer { d with timer := false }

theorem step_cases {d : SmoothData} {e : Event} {r : List Obs × SmoothData}
    (h : step d e = some r) :
    (∃ d', Sets d e d' ∧ r = d'.timestepLocked) ∨
    (∃ d', Sets d e d' ∧ d'.pulsing = false ∧ r = ([], d') ∧
      ((∃ n, e = .pulseOnStore n) ∨ ∃ n, e = .pulseOffStore n)) ∨
    (∃ err, r = ([.failed err], d)) := by
  have hwake (d' : SmoothData) : d'.wake = d'.timestepLocked ∨
      d'.pulsing = false ∧ d'.wake = ([], d') := by
    unfold SmoothData.wake
    cases hp : d'.pulsing with
    | true => exact .inl (if_pos rfl)
    | false => exact .inr ⟨rfl, if_neg Bool.false_ne_true⟩
  cases e with
  | targetStore value =>
      cases value with
      | error err => exact .inr (.inr ⟨err, (Option.some.inj h).symm⟩)
      | ok n =>
          have hr := Option.some.inj h
          simp only [SmoothData.targetStore] at hr
          split at hr
          · exact .inr (.inr ⟨.EINVAL, hr.symm⟩)
          · next hsmall => exact .inl ⟨_, .target n (Nat.not_lt.mp hsmall), hr.symm⟩
  | speedStore value =>
      cases value with
      | error err => exact .inr (.inr ⟨err, (Option.some.inj h).symm⟩)
      | ok n =>
          have hr := Option.some.inj h
          simp only [SmoothData.speedStore] at hr
          split at hr
          · exact .inr (.inr ⟨.EINVAL, hr.symm⟩)
          · next hsmall => exact .inl ⟨_, .speed n (by omega) (by omega), hr.symm⟩
  | pulseOnStore value =>
      cases value with
      | error err => exact .inr (.inr ⟨err, (Option.some.inj h).symm⟩)
      | ok n =>
          have hr := Option.some.inj h
          rcases hwake (d.setPulsePeriods (SmoothData.pulseCount n) d.pulseOffCount) with
            hstep | ⟨hidle, hstep⟩
          · exact .inl ⟨_, .pulseOn n, hr.symm.trans hstep⟩
          · exact .inr (.inl ⟨_, .pulseOn n, hidle, hr.symm.trans hstep, .inl ⟨_, rfl⟩⟩)
  | pulseOffStore value =>
      cases value with
      | error err => exact .inr (.inr ⟨err, (Option.some.inj h).symm⟩)
      | ok n =>
          have hr := Option.some.inj h
          rcases hwake (d.setPulsePeriods d.pulseOnCount (SmoothData.pulseCount n)) with
            hstep | ⟨hidle, hstep⟩
          · exact .inl ⟨_, .pulseOff n, hr.symm.trans hstep⟩
          · exact .inr (.inl ⟨_, .pulseOff n, hidle, hr.symm.trans hstep, .inr ⟨_, rfl⟩⟩)
  | timer =>
      simp only [step] at h
      split at h
      · next hpending => exact .inl ⟨_, .timer hpending, (Option.some.inj h).symm⟩
      · contradiction

end Glowforge.Led
