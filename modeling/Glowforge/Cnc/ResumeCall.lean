import Glowforge.Cnc.Allowance
import Glowforge.Cnc.Calls

/-! A write to `resume` on the driver. Left alone, an idle driver without a fault admits the
start, so that the sections of the call come to what the playback system does in two. -/
namespace Glowforge.Cnc
open Foundation Sdma

namespace Driver

/-- The driver between two calls, as the playback system. -/
def playback (d : Driver) : Playback where
  buf := d.buf
  writer := none
  starting := none
  running := d.status.state = .running
  runningBackward := d.status.runningBackward
  stepFreq := d.stepFreq
  rampStepFreqDelta := d.rampStepFreqDelta

@[simp] theorem playback_setPin (d : Driver) (p : PinId) (value : Bool) :
    (d.setPin p value).playback = d.playback := rfl

theorem playback_commit (d : Driver) (opts : CncRunOptions) :
    (d.commit opts).playback =
      { d.playback with running := true, runningBackward := opts.backward } := by
  have hrestore (d : Driver) : d.restoreDrive.playback = d.playback := by
    unfold restoreDrive
    split <;> rfl
  have haccel (d : Driver) : d.cncAccelStart.playback = d.playback := by
    unfold cncAccelStart
    split <;> rfl
  have htimer (d : Driver) : (d.startTimer opts).playback = d.playback := by
    unfold startTimer
    split
    · exact haccel _
    · rfl
  rw [commit, htimer, toggleChargePump, beamDetectLatchReset]
  simp only [playback_setPin, hrestore]
  rfl

end Driver

namespace Threads

variable {i : Nat} {d d' d'' : Driver} {p p' p'' : Call}

/-- Thread `i`, left alone, comes from one section to another, where each transfer and each
regulator call succeeds. -/
def Comes (i : Nat) (d : Driver) (p : Call) (d' : Driver) (p' : Call) : Prop :=
  ∀ f : Nat → Call, ∃ k out, System.execute step (List.replicate k (.thread i (.next true)))
    ⟨d, Function.update f i p⟩ = some (out, ⟨d', Function.update f i p'⟩)

theorem Comes.trans (first : Comes i d p d' p') (second : Comes i d' p' d'' p'') :
    Comes i d p d'' p'' := by
  intro f
  obtain ⟨k, out, hexec⟩ := first f
  obtain ⟨k', out', hexec'⟩ := second f
  refine ⟨k + k', out ++ out', ?_⟩
  rw [List.replicate_add]
  exact System.execute_append hexec hexec'

theorem Comes.step {o : List Notice} (h : Call.next i d p (.next true) = some (o, d', p')) :
    Comes i d p d' p' := by
  intro f
  refine ⟨1, o, ?_⟩
  simp [System.execute, Threads.step, Pool.step, h]

/-- What the power-on of a start leaves alone. -/
structure Prepared (d d' : Driver) : Prop where
  playback : d'.playback = d.playback
  status : d'.status = d.status
  generation : d'.stopGeneration = d.stopGeneration

theorem comes_pins (i : Nat) (d : Driver) (opts : CncRunOptions) (gen : Word) (was : Bool) :
    ∃ d', Comes i d (.start opts (.power gen was .pins)) d' (.start opts (.commit gen was)) ∧
      Prepared d d' := by
  cases hpower : opts.preservePower with
  | true =>
      refine ⟨d.changePins cncStartupPinChanges, .step (o := []) ?_, rfl, rfl, rfl⟩
      simp [Call.next, Call.stepStart, Call.powerOn, hpower]
  | false =>
      have hpins : Comes i d (.start opts (.power gen was .pins)) (d.changePins cncStartupPinChanges)
          (.start opts (.duty gen was)) := by
        apply Comes.step (o := [])
        simp [Call.next, Call.stepStart, Call.powerOn, hpower]
      exact ⟨_, hpins.trans (.step rfl), rfl, rfl, rfl⟩

theorem comes_powered (i : Nat) (d : Driver) (opts : CncRunOptions) (gen : Word) (was : Bool) :
    ∃ d', Comes i d (.start opts (.power gen was .check)) d' (.start opts (.commit gen was)) ∧
      Prepared d d' := by
  cases hsupply : d.regulatorIsEnabled with
  | true =>
      obtain ⟨d', hcomes, hprepared⟩ := comes_pins i d opts gen was
      have hcheck : Comes i d (.start opts (.power gen was .check)) d
          (.start opts (.power gen was .pins)) := by
        apply Comes.step (o := [])
        simp [Call.next, Call.stepStart, Call.powerOn, hsupply]
      exact ⟨d', hcheck.trans hcomes, hprepared⟩
  | false =>
      obtain ⟨d', hcomes, hprepared⟩ := comes_pins i (d.regulatorEnable true) opts gen was
      have hcheck : Comes i d (.start opts (.power gen was .check)) d
          (.start opts (.power gen was .enable)) := by
        apply Comes.step (o := [])
        simp [Call.next, Call.stepStart, Call.powerOn, hsupply]
      exact ⟨d', hcheck.trans ((Comes.step rfl).trans hcomes), hprepared.1, hprepared.2, hprepared.3⟩

theorem comes_committed (opts : CncRunOptions) (hidle : d.status.state = .idle)
    (hfaults : d.status.triggeredFaults = 0) :
    ∃ d', Comes i d (.start opts (.regs d.stopGeneration)) d' .idle ∧
      d'.playback = { d.playback with
        buf := { d.buf with engine := d.buf.setRegs opts }
        running := true
        runningBackward := opts.backward } := by
  obtain ⟨d₂, hpower, hprepared⟩ := comes_powered i
    { d with buf := (d.buf.loadRegs opts).loadInhibit opts, sdmaMailbox := 0 } opts
    d.stopGeneration d.regulatorIsEnabled
  have hload : Comes i d (.start opts (.regs d.stopGeneration))
      { d with buf := (d.buf.loadRegs opts).loadInhibit opts, sdmaMailbox := 0 }
      (.start opts (.power d.stopGeneration d.regulatorIsEnabled .check)) :=
    (Comes.step rfl).trans ((Comes.step rfl).trans ((Comes.step rfl).trans (.step rfl)))
  have hcommit : Comes i d₂ (.start opts (.commit d.stopGeneration d.regulatorIsEnabled))
      (d₂.commit opts) (.start opts (.unlock d.regulatorIsEnabled none)) := by
    apply Comes.step (o := [.committed opts])
    have hstatus : d₂.status = d.status := hprepared.status
    have hgen : d₂.stopGeneration = d.stopGeneration := hprepared.generation
    simp [Call.next, Call.stepStart, Call.commitStart, hstatus, hgen, hfaults, hidle]
  refine ⟨{ d₂.commit opts with pulsebufLock := none },
    hload.trans (hpower.trans (hcommit.trans (.step rfl))), ?_⟩
  have hkept : d₂.playback = { d.playback with
      buf := { d.buf with engine := d.buf.setRegs opts } } := hprepared.playback
  have hcommitted := Driver.playback_commit d₂ opts
  rw [hkept] at hcommitted
  exact hcommitted

theorem comes_checked (opts : CncRunOptions) (hidle : d.status.state = .idle)
    (hfree : d.pulsebufLock = none) (hunplayed : d.buf.synced.fifo.isEmpty = false) :
    Comes i d (.start opts .check) { d with buf := d.buf.synced, pulsebufLock := some i }
      (.start opts (.length d.stopGeneration)) := by
  have hcheck : Comes i d (.start opts .check) d (.start opts .sample) := by
    apply Comes.step (o := [])
    simp [Call.next, Call.stepStart, hidle]
  have hempty : Comes i d (.start opts (.empty d.stopGeneration)) { d with buf := d.buf.synced }
      (.start opts (.verify d.stopGeneration)) := by
    apply Comes.step (o := [])
    have hfull : d.buf.isEmpty true = (false, d.buf.synced) := by
      rw [← hunplayed]
      rfl
    simp [Call.next, Call.stepStart, hfull]
  have hlock : Comes i { d with buf := d.buf.synced } (.start opts (.lock d.stopGeneration))
      { d with buf := d.buf.synced, pulsebufLock := some i }
      (.start opts (.length d.stopGeneration)) := by
    apply Comes.step (o := [])
    simp [Call.next, Call.stepStart, hfree]
  exact hcheck.trans ((Comes.step rfl).trans (hempty.trans ((Comes.step rfl).trans hlock)))

theorem next_length {opts : CncRunOptions} {gen : Word} (hsynced : d.buf.synced = d.buf)
    (hback : opts.backward = true) :
    Call.next i d (.start opts (.length gen)) (.next true) =
      if cncBacktrackMaxSteps d.buf.fifo.size (d.buf.fifo.inIndex - d.buf.player.head)
          d.buf.totalBytes (cncBacktrackDecelSteps d.stepFreq d.playback.rampRate) <
            opts.numSteps.zeroExtend 32 then
        some ([], d, .start opts (.refuse .EPERM))
      else some ([], d, .start opts (.regs gen)) := by
  have hmax : d.buf.maxBacktrackLength true d.stepFreq d.rampRateHzPerS =
      (cncBacktrackMaxSteps d.buf.fifo.size (d.buf.fifo.inIndex - d.buf.player.head)
        d.buf.totalBytes (cncBacktrackDecelSteps d.stepFreq d.playback.rampRate), d.buf) := by
    rw [← hsynced]
    rfl
  simp only [Call.next, Call.stepStart, hback, if_true, hmax]

theorem comes_length {opts : CncRunOptions} {gen : Word} (hsynced : d.buf.synced = d.buf)
    (hlong : d.playback.Available opts) :
    Comes i d (.start opts (.length gen)) d (.start opts (.regs gen)) := by
  apply Comes.step (o := [])
  cases hback : opts.backward with
  | false => simp [Call.next, Call.stepStart, hback]
  | true => exact (next_length hsynced hback).trans (if_neg (hlong hback))

theorem comes_refused {opts : CncRunOptions} {gen : Word} (hsynced : d.buf.synced = d.buf)
    (hlong : ¬d.playback.Available opts) :
    Comes i d (.start opts (.length gen)) { d with pulsebufLock := none } .idle := by
  obtain ⟨hback, hless⟩ := Classical.not_imp.mp hlong
  have hlength : Comes i d (.start opts (.length gen)) d (.start opts (.refuse .EPERM)) :=
    .step ((next_length hsynced hback).trans (if_pos (not_not.mp hless)))
  exact hlength.trans (.step rfl)

theorem comes_resumed {opts : CncRunOptions} {rawValue : Int} (hcall : resumeStore rawValue = .ok opts)
    (hidle : d.status.state = .idle) (hfaults : d.status.triggeredFaults = 0)
    (hfree : d.pulsebufLock = none) (hunplayed : d.buf.synced.fifo.isEmpty = false) :
    ∃ d' r, Comes i d (.start opts .check) d' .idle ∧ d.playback.writeResume rawValue = some r ∧
      d'.playback = r.2 := by
  have hpausing : d.playback.Pausing := ⟨by simp [Driver.playback, hidle], rfl, rfl, hunplayed⟩
  have hchecked := comes_checked (i := i) opts hidle hfree hunplayed
  let locked : Driver := { d with buf := d.buf.synced, pulsebufLock := some i }
  rw [hpausing.writeResume_eq hcall]
  by_cases hlong : (d.playback.asked opts).Available opts
  · obtain ⟨d', hcomes, hplayback⟩ :=
      comes_committed (i := i) (d := locked) opts hidle hfaults
    obtain ⟨buf, hbuf, hcommit⟩ := Playback.step_startCommit (s := d.playback.asked opts) rfl rfl
      hpausing.idle hlong
    refine ⟨d', _, hchecked.trans ((comes_length (d := locked) rfl hlong).trans hcomes), hcommit, ?_⟩
    rw [hplayback]
    rcases hbuf with rfl | rfl <;> rfl
  · have hcommit := Playback.step_startCommit_long (s := d.playback.asked opts) rfl rfl hlong
    exact ⟨_, _, hchecked.trans (comes_refused (d := locked) rfl hlong), hcommit, rfl⟩

/-- Where the driver is idle without a fault and the lock is free, a write to `resume` does
what it does in the playback system. -/
theorem resume_alone {T : Threads} (hthread : T.threads i = .idle)
    (hidle : T.shared.status.state = .idle) (hfaults : T.shared.status.triggeredFaults = 0)
    (hfree : T.shared.pulsebufLock = none) (hunplayed : T.shared.buf.synced.fifo.isEmpty = false)
    (rawValue : Int) :
    ∃ k out r d', System.execute step (call i (.start (.resume rawValue)) k) T =
        some (out, ⟨d', T.threads⟩) ∧
      T.shared.playback.writeResume rawValue = some r ∧ d'.playback = r.2 := by
  have hsame : Function.update T.threads i .idle = T.threads := by
    rw [← hthread]
    exact Function.update_eq_self i T.threads
  cases hcall : resumeStore rawValue with
  | error e =>
      refine ⟨0, [.returned (some e)], _, T.shared, ?_, Playback.writeResume_error rfl hcall, rfl⟩
      simp [call, System.execute, step, Pool.step, hthread, Call.next, StartCall.options, hcall,
        Call.ret, hsame]
  | ok opts =>
      obtain ⟨d', r, hcomes, hresume, hplayback⟩ :=
        comes_resumed (i := i) hcall hidle hfaults hfree hunplayed
      obtain ⟨k, out, hexec⟩ := hcomes T.threads
      rw [hsame] at hexec
      refine ⟨k, out, r, d', ?_, hresume, hplayback⟩
      have hbegin : step T (.thread i (.start (.resume rawValue))) =
          some ([], ⟨T.shared, Function.update T.threads i (.start opts .check)⟩) := by
        simp [step, Pool.step, hthread, Call.next, StartCall.options, hcall]
      simp [call, System.execute, hbegin, hexec]

end Threads

end Glowforge.Cnc
