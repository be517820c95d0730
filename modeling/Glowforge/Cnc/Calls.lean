import Glowforge.Cnc.Driver
import Glowforge.Foundation.Interleaving
import Glowforge.Foundation.Ledger

/-! The operations of the driver that take several sections, as threads: each section
under a lock, each regulator call, each context transfer and each pin change outside
the lock is one step, and any number of threads are under way. -/
namespace Glowforge.Cnc
open Foundation Sdma

/-- Where `stepper_power_on_unchecked` stands. -/
inductive PowerOn where
  | check
  | enable
  | pins
  deriving DecidableEq, Repr

/-- Where `stepper_supply_off` stands. -/
inductive SupplyOff where
  | check
  | disable
  deriving DecidableEq, Repr

/-- Where `cnc_run_with_options` stands: `gen` is its `stop_gen`, `was` its
`was_powered`. -/
inductive StartPc where
  | check
  | sample
  | empty (gen : Word)
  | verify (gen : Word)
  | lock (gen : Word)
  | length (gen : Word)
  | regs (gen : Word)
  | inhibit (gen : Word)
  | mailbox (gen : Word)
  | wasPowered (gen : Word)
  | power (gen : Word) (was : Bool) (pc : PowerOn)
  | duty (gen : Word) (was : Bool)
  | commit (gen : Word) (was : Bool)
  | unlock (was : Bool) (ret : Option Errno)
  | refuse (e : Errno)
  | supplyOff (pc : SupplyOff)
  | pinsOff
  deriving DecidableEq, Repr

inductive EnablePc where
  | check
  | power (pc : PowerOn)
  | commit
  | supplyOff (pc : SupplyOff)
  | pinsOff
  deriving DecidableEq, Repr

inductive DisablePc where
  | check
  | supplyOff (pc : SupplyOff)
  deriving DecidableEq, Repr

/-- Where `pulsedev_close` stands. -/
inductive ClosePc where
  | state
  | halt
  | relock
  deriving DecidableEq, Repr

/-- Where `cnc_single_z_step` stands. -/
inductive ZStepPc where
  | check
  | dir
  | rise
  | fall
  | dirOff
  deriving DecidableEq, Repr

/-- Where `cnc_buffer_add_user_data` stands. -/
inductive WritePc where
  | lock
  | check
  | sync
  | room
  | copy
  | publish
  | leave (ret : Option Errno)
  deriving DecidableEq, Repr

/-- Where `cnc_clear_pulse_data` stands. -/
inductive ClearPc where
  | lock
  | check
  | clear
  | leave (ret : Option Errno)
  deriving DecidableEq, Repr

/-- A thread: no call, or one at the section it takes next. -/
inductive Call where
  | idle
  | start (opts : CncRunOptions) (pc : StartPc)
  | enable (pc : EnablePc)
  | disable (pc : DisablePc)
  | close (pc : ClosePc)
  | zStep (direction : Bool) (pc : ZStepPc)
  | write (data : List Byte) (pc : WritePc)
  | clear (data position : Bool) (pc : ClearPc)
  deriving DecidableEq, Repr

/-- What a thread does next: make a call, or take its next section with the outcome
of the transfer or the regulator call in it, or of the user copy. -/
inductive Move where
  | start (call : StartCall)
  | enable
  | disable
  | close
  | zStep (direction : Bool)
  | write (data : List Byte)
  | clear (data position : Bool)
  | next (ok : Bool)
  | copied (outcome : CopyOutcome)
  deriving DecidableEq, Repr

/-- The registers `cnc_run_with_options` sets in one transfer: scratch5 to scratch7. -/
def Pulsebuf.loadRegs (b : Pulsebuf) (opts : CncRunOptions) : Pulsebuf :=
  let tail := if opts.backward then b.backtrackDeadStop else b.fifo.inIndex
  let dir := if opts.backward then 0xFFFFFFFF else 1
  let m := (b.engine.m.setWord 29 tail).setWord 30 dir
  { b with engine := b.engine.withMachine (m.setWord 31 (opts.numSteps.zeroExtend 32)) }

/-- The laser inhibit it sets in another. -/
def Pulsebuf.loadInhibit (b : Pulsebuf) (opts : CncRunOptions) : Pulsebuf :=
  let inhibit := if opts.accelerate && !opts.backward then laserInhibitBits else 0
  { b with engine := b.engine.withMachine (b.engine.m.setWord 20 inhibit) }

abbrev Outcome := List Notice × Driver × Call

namespace Call

def ret (d : Driver) (e : Option Errno) : Outcome := ([.returned e], d, .idle)

def powerOn (d : Driver) (ok : Bool) (here : PowerOn → Call) (after : Call) : PowerOn → Outcome
  | .check => ([], d, here (if d.regulatorIsEnabled then .pins else .enable))
  | .enable => ([], d.regulatorEnable ok, here .pins)
  | .pins => ([], d.changePins cncStartupPinChanges, after)

def supplyOff (d : Driver) (ok : Bool) (here : SupplyOff → Call) (after : Driver → Outcome) :
    SupplyOff → Outcome
  | .check => if d.regulatorIsEnabled then ([], d, here .disable) else after d
  | .disable => after (d.regulatorDisable ok)

/-- The checks and the commit of `cnc_run_with_options`, under `status_lock`. -/
def commitStart (d : Driver) (opts : CncRunOptions) (gen : Word) (was : Bool) : Outcome :=
  if d.status.triggeredFaults ≠ 0 then ([], d, .start opts (.unlock was (some .EPERM)))
  else if d.stopGeneration ≠ gen ∨ d.status.state ≠ .idle ∧ d.status.state ≠ .disabled then
    ([], d, .start opts (.unlock was (some .EPERM)))
  else ([.committed opts], d.commit opts, .start opts (.unlock was none))

/-- `cnc_run_with_options` -/
def stepStart (i : Nat) (d : Driver) (opts : CncRunOptions) (ok : Bool) : StartPc → Option Outcome
  | .check =>
      match d.status.state with
      | .running | .fault | .underrun => some (ret d (some .EPERM))
      | .disabled | .idle => some ([], d, .start opts .sample)
  | .sample => some ([], d, .start opts (.empty d.stopGeneration))
  | .empty gen =>
      match d.buf.isEmpty ok with
      | (true, buf) => some (ret { d with buf := buf } (some .ENODATA))
      | (false, buf) => some ([], { d with buf := buf }, .start opts (.verify gen))
  | .verify gen =>
      if ok then some ([], d, .start opts (.lock gen)) else some (ret d (some .ESDMA))
  | .lock gen =>
      if d.pulsebufLock = none then
        some ([], { d with pulsebufLock := some i }, .start opts (.length gen))
      else none
  | .length gen =>
      if opts.backward then
        match d.buf.maxBacktrackLength ok d.stepFreq d.rampRateHzPerS with
        | (maxSteps, buf) =>
            if maxSteps < opts.numSteps.zeroExtend 32 then
              some ([], { d with buf := buf }, .start opts (.refuse .EPERM))
            else some ([], { d with buf := buf }, .start opts (.regs gen))
      else some ([], d, .start opts (.regs gen))
  | .regs gen =>
      if ok then some ([], { d with buf := d.buf.loadRegs opts }, .start opts (.inhibit gen))
      else some ([], d, .start opts (.refuse .ESDMA))
  | .inhibit gen =>
      if ok then some ([], { d with buf := d.buf.loadInhibit opts }, .start opts (.mailbox gen))
      else some ([], d, .start opts (.refuse .ESDMA))
  | .mailbox gen => some ([], { d with sdmaMailbox := 0 }, .start opts (.wasPowered gen))
  | .wasPowered gen => some ([], d, .start opts (.power gen d.regulatorIsEnabled .check))
  | .power gen was pc =>
      let after := if opts.preservePower then StartPc.commit gen was else .duty gen was
      some (powerOn d ok (fun pc => .start opts (.power gen was pc)) (.start opts after) pc)
  | .duty gen was =>
      some ([], { d with laserPwm := laserPwmIdleDuty }, .start opts (.commit gen was))
  | .commit gen was => some (commitStart d opts gen was)
  | .unlock was e =>
      let d := { d with pulsebufLock := none }
      if e = some .EPERM ∧ !was then some ([], d, .start opts (.supplyOff .check))
      else some (ret d e)
  | .refuse e => some (ret { d with pulsebufLock := none } (some e))
  | .supplyOff pc =>
      some (supplyOff d ok (fun pc => .start opts (.supplyOff pc))
        (fun d => ([], d, .start opts .pinsOff)) pc)
  | .pinsOff => some (ret (d.changePins cncShutdownPinChanges) (some .EPERM))

def stepEnable (d : Driver) (ok : Bool) : EnablePc → Outcome
  | .check =>
      match d.status.state with
      | .disabled =>
          if d.status.triggeredFaults &&& fatalFaultConditions ≠ 0 then ret d (some .EPERM)
          else ([], d, .enable (.power .check))
      | .fault =>
          if d.liveFaults &&& ~~~d.ignoredFaults ≠ 0 then ret d (some .EPERM)
          else ([.recovered], { d with status := { d.status with triggeredFaults := 0 } },
            .enable (.power .check))
      | .idle => ret d none
      | .running | .underrun => ret d (some .EPERM)
  | .power pc => powerOn d ok (fun pc => .enable (.power pc)) (.enable .commit) pc
  | .commit =>
      if d.status.triggeredFaults &&& fatalFaultConditions ≠ 0 then
        ([], d, .enable (.supplyOff .check))
      else if d.status.state = .disabled ∨ d.status.state = .fault then
        ret { d with status := { d.status with state := .idle } } none
      else ret d none
  | .supplyOff pc =>
      supplyOff d ok (fun pc => .enable (.supplyOff pc)) (fun d => ([], d, .enable .pinsOff)) pc
  | .pinsOff => ret (d.changePins cncShutdownPinChanges) (some .EPERM)

def stepDisable (d : Driver) (ok : Bool) : DisablePc → Outcome
  | .check =>
      match d.status.state with
      | .idle | .running | .underrun =>
          ([.stopped .disabled], d.driverStop true .disabled, .disable (.supplyOff .check))
      | .disabled | .fault => ret d none
  | .supplyOff pc =>
      supplyOff d ok (fun pc => .disable (.supplyOff pc)) (fun d => ret d none) pc

/-- `pulsedev_close` -/
def stepClose (d : Driver) : ClosePc → Outcome
  | .state =>
      if d.deadmanSwitchActive ∧ d.status.state = .running then ([], d, .close .halt)
      else ([], d, .close .relock)
  | .halt =>
      let r := d.cncHalt
      (r.1, r.2, .close .relock)
  | .relock =>
      let r := d.cncSetLaserLatch 1
      (r.1 ++ [.returned none], r.2, .idle)

/-- `cnc_single_z_step` -/
def stepZ (d : Driver) (direction : Bool) : ZStepPc → Outcome
  | .check =>
      match d.status.state with
      | .running | .fault => ret d (some .EPERM)
      | .idle | .disabled | .underrun => ([], d, .zStep direction .dir)
  | .dir => ([], d.setPin .zDir direction, .zStep direction .rise)
  | .rise => ([], d.setPin .zStep true, .zStep direction .fall)
  | .fall => ([], d.setPin .zStep false, .zStep direction .dirOff)
  | .dirOff => ret (d.setPin .zDir false) none

/-- `cnc_buffer_add_user_data` but for the copy. -/
def stepWrite (i : Nat) (d : Driver) (data : List Byte) (ok : Bool) : WritePc → Option Outcome
  | .lock =>
      if d.pulsebufLock = none then
        some ([], { d with pulsebufLock := some i }, .write data .check)
      else none
  | .check =>
      if d.status.state = .running ∧ d.status.runningBackward then
        some ([], d, .write data (.leave (some .EBUSY)))
      else some ([], d, .write data .sync)
  | .sync =>
      match d.buf.syncHead ok with
      | (.error e, buf) => some ([], { d with buf := buf }, .write data (.leave (some e)))
      | (.ok _, buf) => some ([], { d with buf := buf }, .write data .room)
  | .room =>
      if d.buf.fifo.avail < BitVec.ofNat 32 data.length + cncBufferGapSize then
        some ([], d, .write data (.leave (some .ENOMEM)))
      else some ([], d, .write data .copy)
  | .copy => none
  | .publish =>
      match d.buf.addUserDataPublish ok with
      | (.error e, buf) => some ([], { d with buf := buf }, .write data (.leave (some e)))
      | (.ok _, buf) => some ([], { d with buf := buf }, .write data (.leave none))
  | .leave e => some (ret { d with pulsebufLock := none } e)

/-- The user copy, which leaves its mark on no more cells than it set out to fill. -/
def stepCopy (d : Driver) (data : List Byte) : CopyOutcome → Option Outcome
  | .all => some (copied .all)
  | .fault n spill =>
      if n + spill.length ≤ min data.length d.buf.fifo.avail.toNat then some (copied (.fault n spill))
      else none
where
  copied (outcome : CopyOutcome) : Outcome :=
    match d.buf.addUserDataCopy data outcome with
    | (.error e, buf) => ([], { d with buf := buf }, .write data (.leave (some e)))
    | (.ok _, buf) => ([], { d with buf := buf }, .write data .publish)

/-- `cnc_clear_pulse_data` -/
def stepClear (i : Nat) (d : Driver) (data position ok : Bool) : ClearPc → Option Outcome
  | .lock =>
      if d.pulsebufLock = none then
        some ([], { d with pulsebufLock := some i }, .clear data position .check)
      else none
  | .check =>
      if d.status.state = .running then
        some ([], d, .clear data position (.leave (some .EPERM)))
      else some ([], d, .clear data position .clear)
  | .clear =>
      match d.buf.clear data position ok with
      | (.error e, buf) => some ([], { d with buf := buf }, .clear data position (.leave (some e)))
      | (.ok _, buf) => some ([], { d with buf := buf }, .clear data position (.leave none))
  | .leave e => some (ret { d with pulsebufLock := none } e)

def next (i : Nat) (d : Driver) : Call → Move → Option Outcome
  | .idle, .start call =>
      match call.options with
      | .error e => some (ret d (some e))
      | .ok opts => some ([], d, .start opts .check)
  | .idle, .enable => some ([], d, .enable .check)
  | .idle, .disable => some ([], d, .disable .check)
  | .idle, .close => some ([], d, .close .state)
  | .idle, .zStep direction => some ([], d, .zStep direction .check)
  | .idle, .write data =>
      if data.length < 2 ^ 32 then some ([], d, .write data .lock) else none
  | .idle, .clear data position => some ([], d, .clear data position .lock)
  | .start opts pc, .next ok => stepStart i d opts ok pc
  | .enable pc, .next ok => some (stepEnable d ok pc)
  | .disable pc, .next ok => some (stepDisable d ok pc)
  | .close pc, .next _ => some (stepClose d pc)
  | .zStep direction pc, .next _ => some (stepZ d direction pc)
  | .write data pc, .next ok => stepWrite i d data ok pc
  | .write data .copy, .copied outcome => stepCopy d data outcome
  | .clear data position pc, .next ok => stepClear i d data position ok pc
  | _, _ => none

end Call

/-- What happens to the driver outside its threads: operations of one section, timers,
interrupts, tasklets, script ticks, and the levels of the lines it has as inputs. -/
inductive Surrounding where
  | stop
  | halt
  | setLaserLatch (value : Int)
  | setStreaming (streaming : Bool)
  | setStepFrequency (freq : Word)
  | setRampRate (hzPerS : Word)
  | setIgnoredFaults (mask : Word)
  | flock (lock : Bool)
  | free (fetch : Bool)
  | rampTimer
  | chargePumpTimer
  | sdmaInterrupt
  | faultIrq (f : FaultCondition)
  | faultTasklet
  | panic
  | tick (fuel : Nat)
  | line (p : PinId) (level : Bool)
  deriving DecidableEq, Repr

namespace Driver

/-- A timer calls back only while it is queued. -/
def around (d : Driver) : Surrounding → Option (List Notice × Driver)
  | .stop => some d.cncStop
  | .halt => some d.cncHalt
  | .setLaserLatch value => some (d.cncSetLaserLatch value)
  | .setStreaming streaming => some ([], d.setStreaming streaming)
  | .setStepFrequency freq => some (d.cncSetStepFrequency freq)
  | .setRampRate hzPerS => some (d.cncSetRampRate hzPerS)
  | .setIgnoredFaults mask => some (d.setIgnoredFaults mask)
  | .flock lock => some ([], { d with deadmanSwitchActive := lock })
  | .free fetch => some ([], { d with buf := (d.buf.getFreeSpace fetch).2 })
  | .rampTimer => if d.rampTimer then some d.rampUpdateTaskletFn else none
  | .chargePumpTimer => if d.chargePumpTimer then some ([], d.chargePumpTimerCb) else none
  | .sdmaInterrupt => some d.cncSdmaInterrupt
  | .faultIrq f => some (d.cncFaultIrqHandler f)
  | .faultTasklet => some d.faultTaskletFn
  | .panic => some ([], d.cncPanicHandler)
  | .tick fuel => d.tick fuel
  | .line p level =>
      if pinConfigs p = .gpiofIn then
        some ([], { d with pins := Function.update d.pins p { d.pins p with line := level } })
      else none

end Driver

abbrev Threads := Pool Nat Call Driver

namespace Threads

abbrev Action := PoolAction Nat Move Surrounding

def probe (ringMb : Nat) (args : ScriptArgs) (lines : PinId → Bool) (railOn : Bool) : Threads :=
  ⟨.probe ringMb args lines railOn, fun _ => .idle⟩

def step (T : Threads) : Action → Option (List Notice × Threads) :=
  Pool.step Call.next Driver.around T

theorem probe_rests (ringMb : Nat) (args : ScriptArgs) (lines : PinId → Bool) (railOn : Bool) :
    (probe ringMb args lines railOn).shared.status.state ≠ .running := by
  have hstate (b : Prop) [Decidable b] : (if b then CncState.fault else .disabled) ≠ .running := by
    split <;> decide
  exact hstate _

/-- Thread `i` makes a call and takes so many sections of it, where each transfer and
each regulator call succeeds. -/
def call (i : Nat) (move : Move) (sections : Nat) : List Action :=
  .thread i move :: List.replicate sections (.thread i (.next true))

def callWrite (i : Nat) (data : List Byte) : List Action :=
  call i (.write data) 4 ++ .thread i (.copied .all) :: List.replicate 2 (.thread i (.next true))

def OnlyThreads (is : List Nat) (T : Threads) : Prop := ∀ j, j ∉ is → T.threads j = .idle

theorem OnlyThreads.step {is : List Nat} {T : Threads} {a : Action} {r : List Notice × Threads}
    (h : OnlyThreads is T) (ha : ∀ i move, a = .thread i move → i ∈ is)
    (hstep : T.step a = some r) : OnlyThreads is r.2 := by
  intro j hj
  cases a with
  | surround event =>
      obtain ⟨d, -, hr⟩ := Pool.step_surround hstep
      rw [hr]
      exact h j hj
  | thread i move =>
      obtain ⟨d, p, -, hr⟩ := Pool.step_thread hstep
      have hne : j ≠ i := by
        rintro rfl
        exact hj (ha j move rfl)
      rw [hr]
      exact (Function.update_of_ne hne _ _).trans (h j hj)

def moves (is : List Nat) : Action → Bool
  | .thread i _ => decide (i ∈ is)
  | .surround _ => true

theorem mem_of_moves {is : List Nat} {a : Action} (h : moves is a = true) (i : Nat) (move : Move)
    (ha : a = .thread i move) : i ∈ is := by
  subst ha
  exact of_decide_eq_true h

theorem along_onlyThreads {is : List Nat} {test : Threads → Action → Bool} {as : List Action}
    {T : Threads} (h : OnlyThreads is T)
    (htest : System.check step (fun T a => test T a && moves is a) as T = true) :
    System.Along step (fun T a => test T a = true ∧ OnlyThreads is T) as T := by
  have halong := System.along_of_check htest
  have hboth := System.Along.invariant (I := OnlyThreads is) ?_ h halong
  · apply hboth.mono
    rintro T a ⟨ha, honly⟩
    exact ⟨((Bool.and_eq_true _ _).mp ha).1, honly⟩
  · intro T a r honly ha hstep
    exact honly.step (mem_of_moves ((Bool.and_eq_true _ _).mp ha).2) hstep

theorem along_logged {γ : Type*} {enter : γ → Threads → Action → List Notice × Threads → γ}
    {is : List Nat} {test : Logged Threads γ → Action → Bool} {as : List Action}
    {L : Logged Threads γ} (h : OnlyThreads is L.state)
    (htest : System.check (Logged.step step enter) (fun L a => test L a && moves is a) as L = true) :
    System.Along (Logged.step step enter) (fun L a => test L a = true ∧ OnlyThreads is L.state)
      as L := by
  have halong := System.along_of_check htest
  have hboth := System.Along.invariant (I := fun L => OnlyThreads is L.state) ?_ h halong
  · apply hboth.mono
    rintro L a ⟨ha, honly⟩
    exact ⟨((Bool.and_eq_true _ _).mp ha).1, honly⟩
  · intro L a r honly ha hstep
    obtain ⟨T, hT, hr⟩ := Logged.step_state hstep
    rw [hr]
    exact honly.step (mem_of_moves ((Bool.and_eq_true _ _).mp ha).2) hT

/-- A board with nothing in memory, no line pulled low and the supply off. -/
def bench : Threads := probe 1 (.over fun _ => 0) (fun _ => true) false

theorem onlyThreads_bench (is : List Nat) : OnlyThreads is bench := fun _ _ => rfl

end Threads

end Glowforge.Cnc
