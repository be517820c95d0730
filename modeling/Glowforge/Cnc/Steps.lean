import Glowforge.Cnc.Sections
import Glowforge.Cnc.Transitions

/-! What each section of a start, of a write and of a clear does, and what the other
operations and callbacks leave alone. -/
namespace Glowforge.Cnc
open Foundation Sdma

/-- The part of the driver that the run control has no hand in. -/
structure Aside where
  supply40v : Nat
  laserPwm : BitVec 16
  sdmaMailbox : Word
  buf : Pulsebuf
  pulsebufLock : Option Nat

namespace Driver

def aside (d : Driver) : Aside where
  supply40v := d.supply40v
  laserPwm := d.laserPwm
  sdmaMailbox := d.sdmaMailbox
  buf := d.buf
  pulsebufLock := d.pulsebufLock

theorem aside_driverStop (d : Driver) (inSoftirq : Bool) (nextState : CncState) :
    (d.driverStop inSoftirq nextState).aside = d.aside := by
  unfold driverStop
  dsimp only
  split <;> rfl

theorem aside_cncDecelStart (d : Driver) : d.cncDecelStart.aside = d.aside := by
  unfold cncDecelStart
  split <;> rfl

private theorem aside_restoreDrive (d : Driver) : d.restoreDrive.aside = d.aside := by
  unfold restoreDrive
  split <;> rfl

private theorem aside_setPin (d : Driver) (p : PinId) (value : Bool) :
    (d.setPin p value).aside = d.aside := rfl

private theorem aside_pulsePins (d : Driver) :
    d.beamDetectLatchReset.toggleChargePump.aside = d.aside := by
  unfold toggleChargePump beamDetectLatchReset
  rw [aside_setPin, aside_setPin, aside_setPin, aside_setPin, aside_setPin]

private theorem aside_cncAccelStart (d : Driver) : d.cncAccelStart.aside = d.aside := by
  unfold cncAccelStart
  split <;> rfl

private theorem aside_startTimer (d : Driver) (opts : CncRunOptions) :
    (d.startTimer opts).aside = d.aside := by
  unfold startTimer
  cases opts.accelerate with
  | true => exact aside_cncAccelStart _
  | false => rfl

theorem aside_commit (d : Driver) (opts : CncRunOptions) : (d.commit opts).aside = d.aside := by
  rw [commit, aside_startTimer, aside_pulsePins, aside_restoreDrive]
  rfl

private theorem aside_processFaults (d : Driver) : d.processFaults.aside = d.aside := by
  obtain ⟨pending, triggered, hframe⟩ := d.processFaults_frame
  rw [hframe]
  rfl

theorem around_aside_kept {d : Driver} {event : Surrounding} {r : List Notice × Driver}
    (h : d.around event = some r) (htick : ∀ fuel, event ≠ .tick fuel)
    (hfree : ∀ fetch, event ≠ .free fetch) : r.2.aside = d.aside := by
  have hcase := happens h
  generalize r.1 = o, r.2 = d' at hcase ⊢
  cases hcase with
  | tick hclock hhost => exact absurd rfl (htick _)
  | free => exact absurd rfl (hfree _)
  | stopDecelerates hstate => exact aside_cncDecelStart d
  | halts hstate => exact aside_driverStop d true .idle
  | rampStops hdec hslow => exact aside_driverStop _ true .idle
  | streamEnds hmail hstate hstream => exact aside_driverStop _ true .underrun
  | runEnds hmail hstate hstream => exact aside_driverStop d true .idle
  | waypointDecelerates hmail harmed hdecel => exact aside_cncDecelStart _
  | faultsMore hpending hstate => exact aside_processFaults d
  | faults hpending hstate =>
      rw [aside_driverStop]
      exact aside_processFaults d
  | _ => rfl

theorem around_aside {d : Driver} {event : Surrounding} {r : List Notice × Driver}
    (h : d.around event = some r) (htick : ∀ fuel, event ≠ .tick fuel) :
    r.2.aside = d.aside ∨ r.2.aside = { d.aside with buf := d.buf.synced } := by
  by_cases hfree : ∃ fetch, event = .free fetch
  · obtain ⟨fetch, rfl⟩ := hfree
    cases h
    cases fetch with
    | false => exact .inl rfl
    | true => exact .inr rfl
  · exact .inl (around_aside_kept h htick fun fetch heq => hfree ⟨fetch, heq⟩)

end Driver

/-- A start passes its length check: a backward run is no longer than what can be
retraced. -/
def Driver.admits (d : Driver) (opts : CncRunOptions) (ok : Bool) : Prop :=
  opts.backward = true →
    ¬(d.buf.maxBacktrackLength ok d.stepFreq d.rampRateHzPerS).1 < opts.numSteps.zeroExtend 32

namespace Call

variable {i : Nat} {d d' : Driver} {p p' : Call} {o : List Notice} {ok : Bool}

inductive StartStep (i : Nat) (d : Driver) (opts : CncRunOptions) (ok : Bool) :
    StartPc → List Notice → Driver → Call → Prop where
  | turnedAway (hstate : d.status.state ≠ .idle ∧ d.status.state ≠ .disabled) :
      StartStep i d opts ok .check [.returned (some .EPERM)] d .idle
  | checked (hstate : d.status.state = .idle ∨ d.status.state = .disabled) :
      StartStep i d opts ok .check [] d (.start opts .sample)
  | sampled : StartStep i d opts ok .sample [] d (.start opts (.empty d.stopGeneration))
  | noData {gen : Word} {buf : Pulsebuf} (hbuf : buf = d.buf ∨ buf = d.buf.synced) :
      StartStep i d opts ok (.empty gen) [.returned (some .ENODATA)] { d with buf := buf } .idle
  | hasData {gen : Word} (hdata : d.buf.synced.fifo.isEmpty = false) :
      StartStep i d opts ok (.empty gen) [] { d with buf := d.buf.synced }
        (.start opts (.verify gen))
  | verified {gen : Word} : StartStep i d opts ok (.verify gen) [] d (.start opts (.lock gen))
  | unverified {gen : Word} :
      StartStep i d opts ok (.verify gen) [.returned (some .ESDMA)] d .idle
  | locked {gen : Word} (hfree : d.pulsebufLock = none) :
      StartStep i d opts ok (.lock gen) [] { d with pulsebufLock := some i }
        (.start opts (.length gen))
  | measured {gen : Word} {buf : Pulsebuf} (hbuf : buf = d.buf ∨ buf = d.buf.synced)
      (hadmits : d.admits opts ok)
      (hreach : opts.backward = true → opts.numSteps ≠ 0 →
        ¬cncBacktrackMaxSteps d.buf.fifo.size (d.buf.fifo.inIndex - d.buf.synced.fifo.outIndex)
          d.buf.totalBytes (cncBacktrackDecelSteps d.stepFreq d.rampRateHzPerS) <
            opts.numSteps.zeroExtend 32) :
      StartStep i d opts ok (.length gen) [] { d with buf := buf } (.start opts (.regs gen))
  | tooLong {gen : Word} {buf : Pulsebuf} (hbuf : buf = d.buf ∨ buf = d.buf.synced) :
      StartStep i d opts ok (.length gen) [] { d with buf := buf } (.start opts (.refuse .EPERM))
  | regs {gen : Word} :
      StartStep i d opts ok (.regs gen) [] { d with buf := d.buf.loadRegs opts }
        (.start opts (.inhibit gen))
  | regsFailed {gen : Word} (hok : ok = false) :
      StartStep i d opts ok (.regs gen) [] d (.start opts (.refuse .ESDMA))
  | inhibit {gen : Word} :
      StartStep i d opts ok (.inhibit gen) [] { d with buf := d.buf.loadInhibit opts }
        (.start opts (.mailbox gen))
  | inhibitFailed {gen : Word} (hok : ok = false) :
      StartStep i d opts ok (.inhibit gen) [] d (.start opts (.refuse .ESDMA))
  | mailbox {gen : Word} :
      StartStep i d opts ok (.mailbox gen) [] { d with sdmaMailbox := 0 }
        (.start opts (.wasPowered gen))
  | wasPowered {gen : Word} :
      StartStep i d opts ok (.wasPowered gen) [] d
        (.start opts (.power gen d.regulatorIsEnabled .check))
  | powerCheck {gen : Word} {was : Bool} :
      StartStep i d opts ok (.power gen was .check) [] d
        (.start opts (.power gen was (if d.regulatorIsEnabled then .pins else .enable)))
  | powerEnable {gen : Word} {was : Bool} :
      StartStep i d opts ok (.power gen was .enable) [] (d.regulatorEnable ok)
        (.start opts (.power gen was .pins))
  | powerPins {gen : Word} {was : Bool} :
      StartStep i d opts ok (.power gen was .pins) [] (d.changePins cncStartupPinChanges)
        (.start opts (if opts.preservePower then .commit gen was else .duty gen was))
  | duty {gen : Word} {was : Bool} :
      StartStep i d opts ok (.duty gen was) [] { d with laserPwm := laserPwmIdleDuty }
        (.start opts (.commit gen was))
  | commitRefused {gen : Word} {was : Bool} :
      StartStep i d opts ok (.commit gen was) [] d (.start opts (.unlock was (some .EPERM)))
  | committed {gen : Word} {was : Bool} (hclear : d.status.triggeredFaults = 0)
      (hgen : d.stopGeneration = gen)
      (hstate : d.status.state = .idle ∨ d.status.state = .disabled) :
      StartStep i d opts ok (.commit gen was) [.committed opts] (d.commit opts)
        (.start opts (.unlock was none))
  | returned {was : Bool} {e : Option Errno} :
      StartStep i d opts ok (.unlock was e) [.returned e] { d with pulsebufLock := none } .idle
  | undo {was : Bool} {e : Option Errno} (herr : e = some .EPERM) :
      StartStep i d opts ok (.unlock was e) [] { d with pulsebufLock := none }
        (.start opts (.supplyOff .check))
  | refused {e : Errno} :
      StartStep i d opts ok (.refuse e) [.returned (some e)] { d with pulsebufLock := none } .idle
  | supplyCheck :
      StartStep i d opts ok (.supplyOff .check) [] d (.start opts (.supplyOff .disable))
  | supplyIsOff : StartStep i d opts ok (.supplyOff .check) [] d (.start opts .pinsOff)
  | supplyDisable :
      StartStep i d opts ok (.supplyOff .disable) [] (d.regulatorDisable ok) (.start opts .pinsOff)
  | pinsOff : StartStep i d opts ok .pinsOff [.returned (some .EPERM)]
      (d.changePins cncShutdownPinChanges) .idle

private theorem start_length {opts : CncRunOptions} {gen : Word} {r : Outcome}
    (h : stepStart i d opts ok (.length gen) = some r) :
    StartStep i d opts ok (.length gen) r.1 r.2.1 r.2.2 := by
  simp only [stepStart] at h
  by_cases hback : opts.backward = true
  · rw [if_pos hback] at h
    cases ok with
    | false =>
        by_cases hlong : (0 : Word) < opts.numSteps.zeroExtend 32
        · cases (if_pos hlong).symm.trans h
          exact .tooLong (.inl rfl)
        · cases (if_neg hlong).symm.trans h
          refine .measured (.inl rfl) (fun _ => hlong) ?_
          intro _ hsteps
          exact absurd (Playback.zeroExtend_pos hsteps) hlong
    | true =>
        by_cases hlong : cncBacktrackMaxSteps d.buf.fifo.size
            (d.buf.fifo.inIndex - d.buf.synced.fifo.outIndex) d.buf.totalBytes
            (cncBacktrackDecelSteps d.stepFreq d.rampRateHzPerS) < opts.numSteps.zeroExtend 32
        · cases (if_pos hlong).symm.trans h
          exact .tooLong (.inr rfl)
        · cases (if_neg hlong).symm.trans h
          exact .measured (.inr rfl) (fun _ => hlong) fun _ _ => hlong
  · rw [if_neg hback] at h
    cases h
    exact .measured (.inl rfl) (fun hb => absurd hb hback) fun hb => absurd hb hback

private theorem start_commit {opts : CncRunOptions} {gen : Word} {was : Bool} :
    StartStep i d opts ok (.commit gen was) (commitStart d opts gen was).1
      (commitStart d opts gen was).2.1 (commitStart d opts gen was).2.2 := by
  unfold commitStart
  by_cases hfaults : d.status.triggeredFaults ≠ 0
  · rw [if_pos hfaults]
    exact .commitRefused
  · rw [if_neg hfaults]
    by_cases hmoved : d.stopGeneration ≠ gen ∨ d.status.state ≠ .idle ∧ d.status.state ≠ .disabled
    · rw [if_pos hmoved]
      exact .commitRefused
    · rw [if_neg hmoved]
      obtain ⟨hgen, hstate⟩ := not_or.mp hmoved
      refine .committed (not_not.mp hfaults) (not_not.mp hgen) ?_
      by_contra hother
      exact hstate (not_or.mp hother)

theorem startStep_of_step {opts : CncRunOptions} {pc : StartPc} {r : Outcome}
    (h : stepStart i d opts ok pc = some r) : StartStep i d opts ok pc r.1 r.2.1 r.2.2 := by
  cases pc with
  | check =>
      simp only [stepStart] at h
      cases hstate : d.status.state <;> rw [hstate] at h <;> cases h
      · exact .checked (.inl hstate)
      · exact .turnedAway (by simp [hstate])
      · exact .checked (.inr hstate)
      · exact .turnedAway (by simp [hstate])
      · exact .turnedAway (by simp [hstate])
  | sample =>
      cases h
      exact .sampled
  | empty gen =>
      simp only [stepStart] at h
      rcases Playback.isEmpty_cases d.buf ok with hempty | hempty
      · rw [hempty] at h
        cases h
        exact .noData (.inl rfl)
      · rw [hempty] at h
        cases hdata : d.buf.synced.fifo.isEmpty with
        | true =>
            rw [hdata] at h
            cases h
            exact .noData (.inr rfl)
        | false =>
            rw [hdata] at h
            cases h
            exact .hasData hdata
  | verify gen =>
      cases ok with
      | true =>
          cases h
          exact .verified
      | false =>
          cases h
          exact .unverified
  | lock gen =>
      simp only [stepStart] at h
      split at h
      · cases h
        exact .locked ‹_›
      · cases h
  | length gen => exact start_length h
  | regs gen =>
      cases ok with
      | true =>
          cases h
          exact .regs
      | false =>
          cases h
          exact .regsFailed rfl
  | inhibit gen =>
      cases ok with
      | true =>
          cases h
          exact .inhibit
      | false =>
          cases h
          exact .inhibitFailed rfl
  | mailbox gen =>
      cases h
      exact .mailbox
  | wasPowered gen =>
      cases h
      exact .wasPowered
  | power gen was pc =>
      cases pc with
      | check =>
          cases h
          exact .powerCheck
      | enable =>
          cases h
          exact .powerEnable
      | pins =>
          cases h
          exact .powerPins
  | duty gen was =>
      cases h
      exact .duty
  | commit gen was =>
      cases h
      exact start_commit
  | unlock was e =>
      simp only [stepStart] at h
      split at h
      · rename_i hundo
        cases h
        exact .undo hundo.1
      · cases h
        exact .returned
  | refuse e =>
      cases h
      exact .refused
  | supplyOff pc =>
      cases pc with
      | check =>
          cases hon : d.regulatorIsEnabled with
          | true =>
              simp only [stepStart, supplyOff, hon, if_true] at h
              cases h
              exact .supplyCheck
          | false =>
              simp only [stepStart, supplyOff, hon, Bool.false_eq_true, if_false] at h
              cases h
              exact .supplyIsOff
      | disable =>
          cases h
          exact .supplyDisable
  | pinsOff =>
      cases h
      exact .pinsOff

inductive WriteStep (i : Nat) (d : Driver) (data : List Byte) (ok : Bool) :
    WritePc → List Notice → Driver → Call → Prop where
  | locked (hfree : d.pulsebufLock = none) :
      WriteStep i d data ok .lock [] { d with pulsebufLock := some i } (.write data .check)
  | busy : WriteStep i d data ok .check [] d (.write data (.leave (some .EBUSY)))
  | checked (hahead : ¬(d.status.state = .running ∧ d.status.runningBackward = true)) :
      WriteStep i d data ok .check [] d (.write data .sync)
  | unsynced (hok : ok = false) :
      WriteStep i d data ok .sync [] d (.write data (.leave (some .ESDMA)))
  | synced : WriteStep i d data ok .sync [] { d with buf := d.buf.synced } (.write data .room)
  | full : WriteStep i d data ok .room [] d (.write data (.leave (some .ENOMEM)))
  | room (hroom : ¬d.buf.fifo.avail < BitVec.ofNat 32 data.length + cncBufferGapSize) :
      WriteStep i d data ok .room [] d (.write data .copy)
  | published :
      WriteStep i d data ok .publish [] { d with buf := d.buf.publishTail } (.write data (.leave none))
  | unpublished (hok : ok = false) :
      WriteStep i d data ok .publish [] d (.write data (.leave (some .ESDMA)))
  | left {e : Option Errno} :
      WriteStep i d data ok (.leave e) [.returned e] { d with pulsebufLock := none } .idle

theorem writeStep_of_step {data : List Byte} {pc : WritePc} {r : Outcome}
    (h : stepWrite i d data ok pc = some r) : WriteStep i d data ok pc r.1 r.2.1 r.2.2 := by
  cases pc with
  | lock =>
      simp only [stepWrite] at h
      split at h
      · cases h
        exact .locked ‹_›
      · cases h
  | check =>
      simp only [stepWrite] at h
      split at h
      · cases h
        exact .busy
      · cases h
        exact .checked ‹_›
  | sync =>
      cases ok with
      | true =>
          cases h
          exact .synced
      | false =>
          cases h
          exact .unsynced rfl
  | room =>
      simp only [stepWrite] at h
      split at h
      · cases h
        exact .full
      · cases h
        exact .room ‹_›
  | copy => cases h
  | publish =>
      cases ok with
      | true =>
          cases h
          exact .published
      | false =>
          cases h
          exact .unpublished rfl
  | leave e =>
      cases h
      exact .left

/-- The user copy: all of the data goes into the ring, or some bytes do and the write
index is rolled back. -/
inductive CopyStep (d : Driver) (data : List Byte) : Driver → Call → Prop where
  | copied {c : Config Label} (hfit : data.length ≤ d.buf.fifo.avail.toNat)
      (hc : c = (d.buf.store data).engine) :
      CopyStep d data { d with buf := { d.buf with
        fifo := { d.buf.fifo with inIndex := d.buf.fifo.inIndex + BitVec.ofNat 32 data.length }
        totalBytes := d.buf.totalBytes + BitVec.ofNat 64 data.length
        engine := c } } (.write data .publish)
  | rolledBack {c : Config Label} (bs : List Byte) (e : Errno)
      (hfit : bs.length ≤ d.buf.fifo.avail.toNat) (hc : c = (d.buf.store bs).engine) :
      CopyStep d data { d with buf := { d.buf with engine := c } } (.write data (.leave (some e)))

private theorem copyStep_rolledBack {data : List Byte} (bs : List Byte) (n : Word) (e : Errno)
    (hfit : bs.length ≤ d.buf.fifo.avail.toNat) :
    CopyStep d data { d with
      buf := ((d.buf.store bs).setIn (d.buf.fifo.inIndex + n)).setIn (d.buf.fifo.inIndex + n - n) }
      (.write data (.leave (some e))) := by
  have hbuf : ((d.buf.store bs).setIn (d.buf.fifo.inIndex + n)).setIn (d.buf.fifo.inIndex + n - n) =
      { d.buf with engine := (d.buf.store bs).engine } := by
    rw [BitVec.add_sub_cancel]
    rfl
  rw [hbuf]
  exact .rolledBack bs e hfit rfl

theorem copyStep_of_step {data : List Byte} {outcome : CopyOutcome} {r : Outcome}
    (h : stepCopy d data outcome = some r) : r.1 = [] ∧ CopyStep d data r.2.1 r.2.2 := by
  cases outcome with
  | all =>
      cases h
      unfold stepCopy.copied Pulsebuf.addUserDataCopy
      by_cases hlen : min data.length d.buf.fifo.avail.toNat = data.length
      · have hfit : data.length ≤ d.buf.fifo.avail.toNat := by omega
        rw [if_neg (not_not.mpr hlen)]
        simp only [hlen, List.take_length]
        exact ⟨trivial, .copied hfit rfl⟩
      · rw [if_pos hlen]
        refine ⟨rfl, copyStep_rolledBack _ _ _ ?_⟩
        rw [List.length_take]
        omega
  | fault n spill =>
      simp only [stepCopy] at h
      split at h
      · rename_i hfits
        cases h
        refine ⟨rfl, copyStep_rolledBack _ _ _ ?_⟩
        rw [List.length_append, List.length_take]
        omega
      · cases h

inductive ClearStep (i : Nat) (d : Driver) (data position ok : Bool) :
    ClearPc → List Notice → Driver → Call → Prop where
  | locked (hfree : d.pulsebufLock = none) :
      ClearStep i d data position ok .lock [] { d with pulsebufLock := some i }
        (.clear data position .check)
  | running : ClearStep i d data position ok .check [] d
      (.clear data position (.leave (some .EPERM)))
  | checked (hstate : d.status.state ≠ .running) :
      ClearStep i d data position ok .check [] d (.clear data position .clear)
  | nothing : ClearStep i d data position ok .clear [] d
      (.clear data position (.leave (some .EINVAL)))
  | cleared {c : Config Label} (hc : c = d.buf.engine.clear data position) :
      ClearStep i d data position ok .clear []
        { d with buf := { d.buf.forget data with engine := c } } (.clear data position (.leave none))
  | clearFailed (hok : ok = false) :
      ClearStep i d data position ok .clear [] { d with buf := d.buf.forget data }
        (.clear data position (.leave (some .ESDMA)))
  | left {e : Option Errno} :
      ClearStep i d data position ok (.leave e) [.returned e] { d with pulsebufLock := none } .idle

theorem clearStep_of_step {data position : Bool} {pc : ClearPc} {r : Outcome}
    (h : stepClear i d data position ok pc = some r) :
    ClearStep i d data position ok pc r.1 r.2.1 r.2.2 := by
  cases pc with
  | lock =>
      simp only [stepClear] at h
      split at h
      · cases h
        exact .locked ‹_›
      · cases h
  | check =>
      simp only [stepClear] at h
      split at h
      · cases h
        exact .running
      · cases h
        exact .checked ‹_›
  | clear =>
      have hforget : (d.buf.forget data).engine = d.buf.engine := by
        cases data <;> rfl
      simp only [stepClear, Pulsebuf.clear, hforget] at h
      cases hnone : (!data && !position) with
      | true =>
          rw [hnone, if_pos rfl] at h
          cases h
          exact .nothing
      | false =>
          rw [hnone, if_neg Bool.false_ne_true] at h
          cases ok with
          | true =>
              rw [if_pos rfl] at h
              cases h
              exact .cleared rfl
          | false =>
              rw [if_neg Bool.false_ne_true] at h
              cases h
              exact .clearFailed rfl
  | leave e =>
      cases h
      exact .left

def offRing : Call → Bool
  | .enable _ | .disable _ | .close _ | .zStep _ _ => true
  | _ => false

def raising : Call → Bool
  | .start _ (.power _ _ .enable) | .enable (.power .enable) => true
  | _ => false

def lowering : Call → Bool
  | .start _ (.supplyOff .disable) | .enable (.supplyOff .disable)
  | .disable (.supplyOff .disable) => true
  | _ => false

/-- What an operation off the ring does to the rest of the driver. -/
inductive Supply (d : Driver) (p : Call) : Driver → Prop where
  | keep {d' : Driver} (haside : d'.aside = d.aside) : Supply d p d'
  | raise {d' : Driver} (hp : p.raising = true)
      (haside : d'.aside = { d.aside with supply40v := d.supply40v + 1 }) : Supply d p d'
  | lower {d' : Driver} (hp : p.lowering = true)
      (haside : d'.aside = { d.aside with supply40v := d.supply40v - 1 }) : Supply d p d'

inductive Begins : Move → Call → Prop where
  | start {call : StartCall} {opts : CncRunOptions} (hcall : call.options = .ok opts) :
      Begins (.start call) (.start opts .check)
  | write {data : List Byte} (hlen : data.length < 2 ^ 32) : Begins (.write data) (.write data .lock)
  | clear (data position : Bool) : Begins (.clear data position) (.clear data position .lock)
  | offRing {move : Move} {p : Call} (hp : p.offRing = true) (hraise : p.raising = false)
      (hlower : p.lowering = false) : Begins move p

inductive NextStep (i : Nat) (d : Driver) : Call → Move → List Notice → Driver → Call → Prop where
  | begin {move : Move} {p : Call} (hbegin : Begins move p) : NextStep i d .idle move [] d p
  | invalid {call : StartCall} (e : Errno) :
      NextStep i d .idle (.start call) [.returned (some e)] d .idle
  | start {opts : CncRunOptions} {pc : StartPc} {ok : Bool} {o : List Notice} {d' : Driver}
      {p' : Call} (hstep : StartStep i d opts ok pc o d' p') :
      NextStep i d (.start opts pc) (.next ok) o d' p'
  | write {data : List Byte} {pc : WritePc} {ok : Bool} {o : List Notice} {d' : Driver} {p' : Call}
      (hstep : WriteStep i d data ok pc o d' p') :
      NextStep i d (.write data pc) (.next ok) o d' p'
  | copy {data : List Byte} {outcome : CopyOutcome} {d' : Driver} {p' : Call}
      (hstep : CopyStep d data d' p') :
      NextStep i d (.write data .copy) (.copied outcome) [] d' p'
  | clear {data position : Bool} {pc : ClearPc} {ok : Bool} {o : List Notice} {d' : Driver}
      {p' : Call} (hstep : ClearStep i d data position ok pc o d' p') :
      NextStep i d (.clear data position pc) (.next ok) o d' p'
  | offRing {p p' : Call} {ok : Bool} {o : List Notice} {d' : Driver} (hp : p.offRing = true)
      (hp' : p' = .idle ∨ p'.offRing = true) (hsupply : Supply d p d') :
      NextStep i d p (.next ok) o d' p'

private theorem supply_powerOn {p : Call} (ok : Bool) (here : PowerOn → Call) (after : Call)
    {pc : PowerOn} (hp : pc = .enable → p.raising = true) :
    Supply d p (powerOn d ok here after pc).2.1 := by
  cases pc with
  | check => exact .keep rfl
  | pins => exact .keep rfl
  | enable =>
      cases ok with
      | true => exact .raise (hp rfl) rfl
      | false => exact .keep rfl

private theorem supply_supplyOff {p : Call} (ok : Bool) (here : SupplyOff → Call)
    {after : Driver → Outcome} (hafter : ∀ d, (after d).2.1 = d) {pc : SupplyOff}
    (hp : pc = .disable → p.lowering = true) :
    Supply d p (supplyOff d ok here after pc).2.1 := by
  cases pc with
  | check =>
      unfold supplyOff
      cases d.regulatorIsEnabled with
      | true => exact .keep rfl
      | false =>
          apply Supply.keep
          exact congrArg Driver.aside (hafter d)
  | disable =>
      have haside := congrArg Driver.aside (hafter (d.regulatorDisable ok))
      cases ok with
      | true => exact .lower (hp rfl) haside
      | false => exact .keep haside

private theorem supply_enable (d : Driver) (ok : Bool) (pc : EnablePc) :
    Supply d (.enable pc) (stepEnable d ok pc).2.1 := by
  cases pc with
  | check =>
      apply Supply.keep
      unfold stepEnable
      cases d.status.state with
      | disabled =>
          dsimp only
          split <;> rfl
      | fault =>
          dsimp only
          split <;> rfl
      | idle => rfl
      | running => rfl
      | underrun => rfl
  | power pc =>
      apply supply_powerOn
      rintro rfl
      rfl
  | commit =>
      apply Supply.keep
      simp only [stepEnable]
      split
      · rfl
      · split <;> rfl
  | supplyOff pc =>
      apply supply_supplyOff _ _ (fun _ => rfl)
      rintro rfl
      rfl
  | pinsOff => exact .keep rfl

private theorem supply_disable (d : Driver) (ok : Bool) (pc : DisablePc) :
    Supply d (.disable pc) (stepDisable d ok pc).2.1 := by
  cases pc with
  | check =>
      apply Supply.keep
      unfold stepDisable
      cases d.status.state with
      | idle => exact Driver.aside_driverStop d true .disabled
      | running => exact Driver.aside_driverStop d true .disabled
      | underrun => exact Driver.aside_driverStop d true .disabled
      | disabled => rfl
      | fault => rfl
  | supplyOff pc =>
      apply supply_supplyOff _ _ (fun _ => rfl)
      rintro rfl
      rfl

private theorem supply_close (d : Driver) (pc : ClosePc) :
    Supply d (.close pc) (stepClose d pc).2.1 := by
  cases pc with
  | state =>
      apply Supply.keep
      simp only [stepClose]
      split <;> rfl
  | halt =>
      have hhalt : d.around .halt = some d.cncHalt := rfl
      exact .keep (Driver.around_aside_kept hhalt (by rintro _ ⟨⟩) (by rintro _ ⟨⟩))
  | relock =>
      have hlatch : d.around (.setLaserLatch 1) = some (d.cncSetLaserLatch 1) := rfl
      exact .keep (Driver.around_aside_kept hlatch (by rintro _ ⟨⟩) (by rintro _ ⟨⟩))

private theorem supply_zStep (d : Driver) (direction : Bool) (pc : ZStepPc) :
    Supply d (.zStep direction pc) (stepZ d direction pc).2.1 := by
  cases pc with
  | check =>
      apply Supply.keep
      unfold stepZ
      cases d.status.state <;> rfl
  | dir => exact .keep rfl
  | rise => exact .keep rfl
  | fall => exact .keep rfl
  | dirOff => exact .keep rfl

private theorem stays_enable (d : Driver) (ok : Bool) (pc : EnablePc) :
    (stepEnable d ok pc).2.2 = .idle ∨ (stepEnable d ok pc).2.2.offRing = true := by
  cases pc with
  | check =>
      unfold stepEnable
      cases d.status.state with
      | disabled =>
          dsimp only
          split
          · exact .inl rfl
          · exact .inr rfl
      | fault =>
          dsimp only
          split
          · exact .inl rfl
          · exact .inr rfl
      | idle => exact .inl rfl
      | running => exact .inl rfl
      | underrun => exact .inl rfl
  | power pc => cases pc <;> exact .inr rfl
  | commit =>
      simp only [stepEnable]
      split
      · exact .inr rfl
      · split <;> exact .inl rfl
  | supplyOff pc =>
      cases pc with
      | check =>
          simp only [stepEnable, supplyOff]
          split <;> exact .inr rfl
      | disable => exact .inr rfl
  | pinsOff => exact .inl rfl

private theorem stays_disable (d : Driver) (ok : Bool) (pc : DisablePc) :
    (stepDisable d ok pc).2.2 = .idle ∨ (stepDisable d ok pc).2.2.offRing = true := by
  cases pc with
  | check =>
      unfold stepDisable
      cases d.status.state with
      | idle => exact .inr rfl
      | running => exact .inr rfl
      | underrun => exact .inr rfl
      | disabled => exact .inl rfl
      | fault => exact .inl rfl
  | supplyOff pc =>
      cases pc with
      | check =>
          simp only [stepDisable, supplyOff]
          split
          · exact .inr rfl
          · exact .inl rfl
      | disable => exact .inl rfl

private theorem stays_zStep (d : Driver) (direction : Bool) (pc : ZStepPc) :
    (stepZ d direction pc).2.2 = .idle ∨ (stepZ d direction pc).2.2.offRing = true := by
  cases pc with
  | check =>
      unfold stepZ
      cases d.status.state with
      | running => exact .inl rfl
      | fault => exact .inl rfl
      | idle => exact .inr rfl
      | disabled => exact .inr rfl
      | underrun => exact .inr rfl
  | dir => exact .inr rfl
  | rise => exact .inr rfl
  | fall => exact .inr rfl
  | dirOff => exact .inl rfl

private theorem stays_close (d : Driver) (pc : ClosePc) :
    (stepClose d pc).2.2 = .idle ∨ (stepClose d pc).2.2.offRing = true := by
  cases pc with
  | state =>
      simp only [stepClose]
      split <;> exact .inr rfl
  | halt => exact .inr rfl
  | relock => exact .inl rfl

theorem nextStep_of_next {move : Move} {r : Outcome} (h : next i d p move = some r) :
    NextStep i d p move r.1 r.2.1 r.2.2 := by
  unfold next at h
  split at h
  · rename_i call
    cases hcall : call.options with
    | error e =>
        rw [hcall] at h
        cases h
        exact .invalid e
    | ok opts =>
        rw [hcall] at h
        cases h
        exact .begin (.start hcall)
  · cases h
    exact .begin (.offRing rfl rfl rfl)
  · cases h
    exact .begin (.offRing rfl rfl rfl)
  · cases h
    exact .begin (.offRing rfl rfl rfl)
  · cases h
    exact .begin (.offRing rfl rfl rfl)
  · split at h
    · cases h
      exact .begin (.write ‹_›)
    · cases h
  · cases h
    exact .begin (.clear _ _)
  · exact .start (startStep_of_step h)
  · cases h
    exact .offRing rfl (stays_enable d _ _) (supply_enable d _ _)
  · cases h
    exact .offRing rfl (stays_disable d _ _) (supply_disable d _ _)
  · cases h
    exact .offRing rfl (stays_close d _) (supply_close d _)
  · cases h
    exact .offRing rfl (stays_zStep d _ _) (supply_zStep d _ _)
  · exact .write (writeStep_of_step h)
  · obtain ⟨hquiet, hcopy⟩ := copyStep_of_step h
    rw [hquiet]
    exact .copy hcopy
  · exact .clear (clearStep_of_step h)
  · cases h

end Call

end Glowforge.Cnc
