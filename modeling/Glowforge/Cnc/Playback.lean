import Glowforge.Cnc.Buffer
import Glowforge.Foundation.System

/-! Writers, run starts, data clears and script ticks on one pulse ring. A write is
taken in the three steps between which the engine may play on: the room check, the
copy, and the publication of the new tail; `pulsebuf_lock` keeps everything else that
takes it out meanwhile. A start is taken in two: its checks, and what it does under
that lock; one start is under way at a time. -/
namespace Glowforge.Cnc
open Foundation Sdma

structure CncRunOptions where
  numSteps : BitVec 28
  backward : Bool
  accelerate : Bool
  decelerate : Bool
  preservePower : Bool
  deriving DecidableEq, Repr

def cncRun : CncRunOptions := ⟨0, false, false, false, false⟩

def cncBacktrack (numSteps : Word) : Except Errno CncRunOptions :=
  if numSteps = 0 then .error .EINVAL
  else .ok ⟨numSteps.truncate 28, true, true, true, true⟩

def cncResume (laserDelaySteps : Word) : CncRunOptions :=
  ⟨laserDelaySteps.truncate 28, false, true, false, true⟩

/-- `resume_store` after its parse: negative values backtrack, the others resume. -/
def resumeStore (rawValue : Int) : Except Errno CncRunOptions :=
  if rawValue < -2147483648 ∨ rawValue > 4294967295 then .error .EINVAL
  else
    let value := (BitVec.ofInt 32 rawValue).toInt
    let magnitude := if value < 0 then -value else value
    if magnitude ≥ 2 ^ 28 then .error .EINVAL
    else if value < 0 then cncBacktrack (BitVec.ofInt 32 (-value))
    else .ok (cncResume (BitVec.ofInt 32 value))

/-- A write to the `run` or to the `resume` attribute. -/
inductive StartCall where
  | run
  | resume (rawValue : Int)
  deriving DecidableEq, Repr

def StartCall.options : StartCall → Except Errno CncRunOptions
  | .run => .ok cncRun
  | .resume rawValue => resumeStore rawValue

/-- How the context transfers and the final checks of a run start turn out. -/
structure StartOutcome where
  syncMax : Bool
  setRegs : Bool
  setInhibit : Bool
  admitted : Bool
  deriving DecidableEq, Repr

def StartOutcome.granted : StartOutcome := ⟨true, true, true, true⟩

/-- A write in progress, holding `pulsebuf_lock`. -/
structure Writer where
  data : List Byte
  copied : Bool
  deriving DecidableEq, Repr

structure Playback where
  buf : Pulsebuf
  writer : Option Writer
  starting : Option CncRunOptions
  running : Bool
  runningBackward : Bool
  stepFreq : Word
  rampStepFreqDelta : Word

inductive Action where
  | writeBegin (data : List Byte) (fetch : Bool)
  | writeCopy (outcome : CopyOutcome)
  | writePublish (load : Bool)
  | startCheck (call : StartCall) (fetch verify : Bool)
  | startCommit (outcome : StartOutcome)
  | tick (fuel : Nat)
  | stop
  | clear (data position load : Bool)
  | syncHead (fetch : Bool)
  | setStepFrequency (freq : Word)
  | setRampRate (hzPerS : Word)

/-- What a step shows: bytes that enter the kfifo, the write of them that succeeds, a
reset of the kfifo, the data clear that succeeds, the events of a tick, an error
return, a committed start. -/
inductive Obs where
  | queued (data : List Byte)
  | accepted (data : List Byte)
  | emptied
  | cleared
  | played (events : List Event)
  | failed (e : Errno)
  | started (backward : Bool)
  deriving DecidableEq, Repr

/-- The registers of a start: scratch5 to scratch7 and the laser inhibit. -/
def Pulsebuf.setRegs (b : Pulsebuf) (o : CncRunOptions) : Config Label :=
  let tail := if o.backward then b.backtrackDeadStop else b.fifo.inIndex
  b.engine.start tail o.backward o.accelerate (o.numSteps.zeroExtend 32)

/-- `setRegs` when its second transfer fails: the inhibit word keeps its value. -/
def Pulsebuf.setSomeRegs (b : Pulsebuf) (o : CncRunOptions) : Config Label :=
  let c := b.setRegs o
  c.withMachine (c.m.setWord 20 (b.engine.m.word 20))

namespace Playback

def probe (ringMb : Nat) (args : ScriptArgs) : Playback where
  buf := cncBufferInit ringMb args
  writer := none
  starting := none
  running := false
  runningBackward := false
  stepFreq := 10000
  rampStepFreqDelta := 1250

def rampRate (s : Playback) : Word := s.rampStepFreqDelta * 100

/-- `cnc_run_with_options` before it takes `pulsebuf_lock`. -/
def startCheck (s : Playback) (o : CncRunOptions) (fetch verify : Bool) : List Obs × Playback :=
  if s.running then ([.failed .EPERM], s)
  else
    match s.buf.isEmpty fetch with
    | (true, buf) => ([.failed .ENODATA], { s with buf := buf })
    | (false, buf) =>
        if verify then ([], { s with buf := buf, starting := some o })
        else ([.failed .ESDMA], { s with buf := buf })

/-- `cnc_run_with_options` under `pulsebuf_lock`: the length check, the registers of
the script, and the commit. -/
def startCommit (s : Playback) (o : CncRunOptions) (w : StartOutcome) : List Obs × Playback :=
  let (maxSteps, buf) :=
    if o.backward then s.buf.maxBacktrackLength w.syncMax s.stepFreq s.rampRate else (0, s.buf)
  let s := { s with buf := buf, starting := none }
  if o.backward && decide (maxSteps < o.numSteps.zeroExtend 32) then ([.failed .EPERM], s)
  else if !w.setRegs then ([.failed .ESDMA], s)
  else if !w.setInhibit then
    ([.failed .ESDMA], { s with buf := { s.buf with engine := s.buf.setSomeRegs o } })
  else
    let s := { s with buf := { s.buf with engine := s.buf.setRegs o } }
    if s.running || !w.admitted then ([.failed .EPERM], s)
    else ([.started o.backward], { s with running := true, runningBackward := o.backward })

/-- `cnc_buffer_add_user_data`, step by step. -/
def writeBegin (s : Playback) (data : List Byte) (fetch : Bool) : List Obs × Playback :=
  match s.buf.addUserDataBegin (s.running && s.runningBackward) fetch data.length with
  | (.ok _, buf) => ([], { s with buf := buf, writer := some ⟨data, false⟩ })
  | (.error e, buf) => ([.failed e], { s with buf := buf })

def writeCopy (s : Playback) (data : List Byte) (outcome : CopyOutcome) : List Obs × Playback :=
  match s.buf.addUserDataCopy data outcome with
  | (.ok _, buf) => ([.queued data], { s with buf := buf, writer := some ⟨data, true⟩ })
  | (.error e, buf) => ([.failed e], { s with buf := buf, writer := none })

def writePublish (s : Playback) (data : List Byte) (load : Bool) : List Obs × Playback :=
  match s.buf.addUserDataPublish load with
  | (.ok _, buf) => ([.accepted data], { s with buf := buf, writer := none })
  | (.error e, buf) => ([.failed e], { s with buf := buf, writer := none })

/-- `cnc_clear_pulse_data` while not running. -/
def clear (s : Playback) (data position load : Bool) : List Obs × Playback :=
  let emptied := if data then [Obs.emptied] else []
  match s.buf.clear data position load with
  | (.ok _, buf) => (emptied ++ if data then [.cleared] else [], { s with buf := buf })
  | (.error e, buf) => (emptied ++ [.failed e], { s with buf := buf })

def CopyFits (s : Playback) (data : List Byte) : CopyOutcome → Prop
  | .all => True
  | .fault copied spill => copied + spill.length ≤ min data.length s.buf.fifo.avail.toNat

instance (s : Playback) (data : List Byte) (o : CopyOutcome) : Decidable (s.CopyFits data o) := by
  cases o <;> unfold CopyFits <;> infer_instance

def step (s : Playback) : Action → Option (List Obs × Playback)
  | .writeBegin data fetch =>
      if s.writer = none ∧ data.length < 2 ^ 32 then some (s.writeBegin data fetch) else none
  | .writeCopy outcome =>
      match s.writer with
      | some ⟨data, false⟩ => if s.CopyFits data outcome then some (s.writeCopy data outcome) else none
      | _ => none
  | .writePublish load =>
      match s.writer with
      | some ⟨data, true⟩ => some (s.writePublish data load)
      | _ => none
  | .startCheck call fetch verify =>
      if s.starting = none then
        match call.options with
        | .error e => some ([.failed e], s)
        | .ok o => some (s.startCheck o fetch verify)
      else none
  | .startCommit outcome =>
      match s.writer, s.starting with
      | none, some o => some (s.startCommit o outcome)
      | _, _ => none
  | .tick fuel =>
      if s.running then
        (s.buf.engine.host (.tick fuel)).map fun r =>
          ([.played r.1], { s with buf := { s.buf with engine := r.2 } })
      else none
  | .stop => some ([], { s with running := false, runningBackward := false })
  | .clear data position load =>
      if s.writer = none then
        if s.running then some ([.failed .EPERM], s) else some (s.clear data position load)
      else none
  | .syncHead fetch => some ([], { s with buf := (s.buf.syncHead fetch).2 })
  | .setStepFrequency freq =>
      if freq < 1000 ∨ freq > 200000 then some ([.failed .ERANGE], s)
      else if s.running then some ([.failed .EBUSY], s)
      else some ([], { s with stepFreq := freq })
  | .setRampRate hzPerS =>
      if hzPerS < 10000 ∨ hzPerS > 500000 then some ([.failed .ERANGE], s)
      else if s.running then some ([.failed .EBUSY], s)
      else some ([], { s with rampStepFreqDelta := hzPerS / 100 })

end Playback

end Glowforge.Cnc
