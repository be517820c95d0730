import Glowforge.Sdma.Script
import Glowforge.Sdma.Player
import Glowforge.Sdma.Blocks
import Glowforge.Sdma.Tick
import Glowforge.Foundation.System
import Glowforge.Sdma.Session
import Glowforge.Sdma.LaserGate
import Glowforge.Foundation.RingIndex
import Glowforge.Sdma.Retrace
import Glowforge.Cnc.Backtrack
import Glowforge.Cnc.Buffer
import Glowforge.Cnc.Playback
import Glowforge.Foundation.Fifo
import Glowforge.Cnc.Transitions
import Glowforge.Cnc.Counted
import Glowforge.Cnc.BackwardRun
import Glowforge.Cnc.Indexed
import Glowforge.Cnc.EmptyTest
import Glowforge.Cnc.PulseFifo
import Glowforge.Cnc.Calls
import Glowforge.Cnc.Surroundings
import Glowforge.Cnc.Control
import Glowforge.Cnc.Simulation
import Glowforge.Cnc.RunScoped
import Glowforge.Cnc.FireLine
import Glowforge.Cnc.Sections
import Glowforge.Cnc.FaultLatch
import Glowforge.Cnc.Steps
import Glowforge.Foundation.Mutex
import Glowforge.Cnc.PulsebufLock
import Glowforge.Cnc.SupplyRail
import Glowforge.Cnc.StartRace
import Glowforge.Cnc.Progress
import Glowforge.Cnc.Driver
import Glowforge.Foundation.Interleaving
import Glowforge.Foundation.Ledger
import Glowforge.Cnc.PinWrites
import Glowforge.Cnc.PinOwner
import Glowforge.Sdma.Parking
import Glowforge.Cnc.StepCount
import Glowforge.Cnc.Registers
import Glowforge.Cnc.Waypoint
import Glowforge.Cnc.HistoryFloor
import Glowforge.Cnc.History
import Glowforge.Cnc.RunTail
import Glowforge.Cnc.Underrun
import Glowforge.Cnc.Interlock
import Glowforge.Sdma.TickBound
import Glowforge.Sdma.Track
import Glowforge.Sdma.PowerLevel
import Glowforge.Sdma.WaypointCount
import Glowforge.Cnc.Ramp
import Glowforge.Cnc.RampRun
import Glowforge.Cnc.DecelTail
import Glowforge.Cnc.FailedCalls
import Glowforge.Cnc.EmptyCommit
import Glowforge.Cnc.ClearRace
import Glowforge.Cooling.Removal
import Glowforge.Cnc.Lifetime
import Glowforge.Led.Pulser
import Glowforge.Bus.Hex
import Glowforge.Sdma.Destinations
import Glowforge.Cnc.PoweredStart
import Glowforge.Cnc.ResumeCall
import Glowforge.Led.Fade
import Glowforge.Asm.ProgramMemory
import Glowforge.Sdma.Drift
import Glowforge.Bus.Attributes
import Glowforge.Bus.LedQueue
import Glowforge.Cnc.Feeding
import Glowforge.Cnc.Clocked
import Glowforge.Platform.Module
