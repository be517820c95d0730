import Mathlib.Data.List.Nodup
import Mathlib.Logic.Function.Basic

/-! The GPIO pins of the stepper driver (`cnc_pins.c`) and what the driver does to
them (`io.c`, and gpiolib under it). -/
namespace Glowforge.Cnc

inductive PinId where
  | xEnable | xStep | xDir | xHome | xFault | xMode0 | xMode1 | xMode2 | xDecay
  | y1Enable | y1Step | y1Dir | y1Home | y1Fault
  | y2Enable | y2Step | y2Dir | y2Home | y2Fault
  | yMode0 | yMode1 | yMode2 | yDecay
  | zEnable | zStep | zDir
  | stepReset | stepSleep
  | laserOn | laserOnHead | chargePump
  | laserLatchReset | beamLatchReset
  | laserOnReadback | laserPgood | buttonLatch | interlockLatchReset | chargePumpAlive
  deriving DecidableEq, Repr

/-- A pin: its direction, the level it is driven to when it is an output, and the level
of the line when it is not. -/
structure Pin where
  output : Bool
  data : Bool
  line : Bool
  deriving DecidableEq, Repr

abbrev Pins := PinId → Pin

/-- The values of a pin change: 0, 1 and `HI_Z`. -/
inductive PinValue where
  | low
  | high
  | hiZ
  deriving DecidableEq, Repr

inductive GpioFlags where
  | gpiofIn
  | gpiofOutInitHigh
  | gpiofOutInitLow
  deriving DecidableEq, Repr

def Pin.directionOutput (q : Pin) (value : Bool) : Pin :=
  { q with output := true, data := value }

/-- Changes the direction only: the data register keeps its value. -/
def Pin.directionInput (q : Pin) : Pin :=
  { q with output := false }

def Pin.value (q : Pin) : Bool := if q.output then q.data else q.line

def gpioDirectionOutput (ps : Pins) (p : PinId) (value : Bool) : Pins :=
  Function.update ps p ((ps p).directionOutput value)

def gpioDirectionInput (ps : Pins) (p : PinId) : Pins :=
  Function.update ps p (ps p).directionInput

def gpioSetValue (ps : Pins) (p : PinId) (value : Bool) : Pins :=
  Function.update ps p { ps p with data := value }

def gpioGetValue (ps : Pins) (p : PinId) : Bool := (ps p).value

def pinConfigs : PinId → GpioFlags
  | .xEnable | .y1Enable | .y2Enable | .laserLatchReset | .interlockLatchReset => .gpiofOutInitHigh
  | .xHome | .xFault | .xDecay | .y1Home | .y1Fault | .y2Home | .y2Fault | .yDecay | .laserOn
  | .laserOnReadback | .laserPgood | .buttonLatch | .chargePumpAlive => .gpiofIn
  | _ => .gpiofOutInitLow

/-- `io_init_gpios`, on a board whose lines are at the levels given. -/
def ioInitGpios (lines : PinId → Bool) : Pins := fun p =>
  match pinConfigs p with
  | .gpiofIn => ⟨false, false, lines p⟩
  | .gpiofOutInitHigh => ⟨true, true, lines p⟩
  | .gpiofOutInitLow => ⟨true, false, lines p⟩

def PinValue.apply : PinValue → Pin → Pin
  | .low, q => q.directionOutput false
  | .high, q => q.directionOutput true
  | .hiZ, q => q.directionInput

def changePin (ps : Pins) (change : PinId × PinValue) : Pins :=
  Function.update ps change.1 (change.2.apply (ps change.1))

def ioChangePins (ps : Pins) (changeSet : List (PinId × PinValue)) : Pins :=
  changeSet.foldl changePin ps

def cncStartupPinChanges : List (PinId × PinValue) :=
  [(.stepReset, .high), (.stepSleep, .high), (.xEnable, .low), (.y1Enable, .low),
    (.y2Enable, .low), (.zEnable, .high), (.chargePump, .low), (.xStep, .low), (.xDir, .low),
    (.y1Step, .low), (.y1Dir, .low), (.y2Step, .low), (.y2Dir, .low), (.zStep, .low),
    (.zDir, .low)]

def cncStopPinChanges : List (PinId × PinValue) :=
  [(.laserOn, .hiZ), (.laserOnHead, .low), (.chargePump, .low), (.xStep, .low), (.xDir, .low),
    (.y1Step, .low), (.y1Dir, .low), (.y2Step, .low), (.y2Dir, .low), (.zStep, .low),
    (.zDir, .low)]

def cncShutdownPinChanges : List (PinId × PinValue) :=
  [(.stepReset, .low), (.stepSleep, .low), (.laserLatchReset, .high), (.xEnable, .high),
    (.y1Enable, .high), (.y2Enable, .high), (.zEnable, .low), (.laserOn, .hiZ),
    (.laserOnHead, .low), (.chargePump, .low), (.xStep, .low), (.xDir, .low), (.y1Step, .low),
    (.y1Dir, .low), (.y2Step, .low), (.y2Dir, .low), (.zStep, .low), (.zDir, .low)]

/-- `cnc_sdma_pin_set`: the pins the script drives, with their bits in the GPIO word. -/
def cncSdmaPinSet : List (PinId × Nat) :=
  [(.xStep, 22), (.xDir, 19), (.y1Step, 20), (.y1Dir, 18), (.y2Step, 29), (.y2Dir, 28),
    (.zStep, 21), (.zDir, 17), (.laserOn, 30), (.laserOnHead, 31)]

theorem ioChangePins_of_notMem {changeSet : List (PinId × PinValue)} {p : PinId} {ps : Pins}
    (h : p ∉ changeSet.map Prod.fst) : ioChangePins ps changeSet p = ps p := by
  induction changeSet generalizing ps with
  | nil => rfl
  | cons change rest ih =>
      rw [List.map_cons, List.mem_cons, not_or] at h
      exact (ih h.2).trans (Function.update_of_ne h.1 _ _)

theorem ioChangePins_of_mem {changeSet : List (PinId × PinValue)} {p : PinId} {v : PinValue}
    {ps : Pins} (hnodup : (changeSet.map Prod.fst).Nodup) (h : (p, v) ∈ changeSet) :
    ioChangePins ps changeSet p = v.apply (ps p) := by
  induction changeSet generalizing ps with
  | nil => cases h
  | cons first rest ih =>
      rw [List.map_cons, List.nodup_cons] at hnodup
      rcases List.mem_cons.mp h with rfl | hrest
      · exact (ioChangePins_of_notMem hnodup.1).trans (Function.update_self _ _ _)
      · have hne : p ≠ first.1 := by
          rintro rfl
          exact hnodup.1 (List.mem_map.mpr ⟨_, hrest, rfl⟩)
        refine (ih hnodup.2 hrest).trans ?_
        rw [changePin, Function.update_of_ne hne]

end Glowforge.Cnc
