import Glowforge.Cnc.Simulation

/-! What belongs to a run does not outlive it: outside RUNNING the timer and its event
are off and every run-scoped flag is down. -/
namespace Glowforge.Cnc
open Foundation Sdma

namespace CncStatus

structure Quiet (s : CncStatus) : Prop where
  waypointArmed : s.waypointArmed = false
  decelOnInterrupt : s.decelOnInterrupt = false
  runningBackward : s.runningBackward = false
  accelerating : s.accelerating = false
  decelerating : s.decelerating = false

end CncStatus

namespace Control

structure RunScoped (c : Control) : Prop where
  stopped : c.status.state ≠ .running → c.epitRunning = false ∧ c.sdmaEvent = false
  quiet : c.status.state ≠ .running → c.status.Quiet
  oneRamp : ¬(c.status.accelerating = true ∧ c.status.decelerating = true)
  armed : c.status.decelOnInterrupt = true → c.status.waypointArmed = true

namespace RunScoped

variable {c : Control}

/-- A run's flag that is up says that the driver is running. -/
theorem running_of_decelerating (h : c.RunScoped) (hdec : c.status.decelerating = true) :
    c.status.state = .running := by
  by_contra hstate
  rw [(h.quiet hstate).decelerating] at hdec
  cases hdec

theorem running_of_armed (h : c.RunScoped) (harmed : c.status.waypointArmed = true) :
    c.status.state = .running := by
  by_contra hstate
  rw [(h.quiet hstate).waypointArmed] at harmed
  cases harmed

theorem running_of_accelerating (h : c.RunScoped) (hacc : c.status.accelerating = true) :
    c.status.state = .running := by
  by_contra hstate
  rw [(h.quiet hstate).accelerating] at hacc
  cases hacc

/-- The invariant looks at the status, less its fault mask and the streaming flag, the
timer and the event. -/
theorem of_running (hstate : c.status.state = .running)
    (hone : ¬(c.status.accelerating = true ∧ c.status.decelerating = true))
    (harmed : c.status.decelOnInterrupt = true → c.status.waypointArmed = true) : c.RunScoped where
  stopped hnot := absurd hstate hnot
  quiet hnot := absurd hstate hnot
  oneRamp := hone
  armed := harmed

theorem of_quiet (hquiet : c.status.Quiet) (hepit : c.epitRunning = false)
    (hevent : c.sdmaEvent = false) : c.RunScoped where
  stopped _ := ⟨hepit, hevent⟩
  quiet _ := hquiet
  oneRamp := by
    rintro ⟨hacc, _⟩
    rw [hquiet.accelerating] at hacc
    cases hacc
  armed hdecel := by
    rw [hquiet.decelOnInterrupt] at hdecel
    cases hdecel

theorem stop (c : Control) (nextState : CncState) : (c.stop nextState).RunScoped := by
  unfold Control.stop
  exact of_quiet ⟨rfl, rfl, rfl, rfl, rfl⟩ rfl rfl

theorem decelerate (h : c.RunScoped) (hrun : c.status.state = .running) :
    c.decelerate.RunScoped := by
  unfold Control.decelerate
  split
  · exact h
  · apply of_running
    · exact hrun
    · exact fun hboth => Bool.false_ne_true hboth.1
    · exact h.armed

theorem waypoint (h : c.RunScoped) (hrun : c.status.state = .running) : c.waypoint.RunScoped := by
  unfold Control.waypoint
  split
  · apply decelerate
    · apply of_running
      · exact hrun
      · exact h.oneRamp
      · exact fun hdecel => absurd hdecel Bool.false_ne_true
    · exact hrun
  · apply of_running
    · exact hrun
    · exact h.oneRamp
    · exact fun hdecel => absurd hdecel ‹_›

theorem accelerate (h : c.RunScoped) (hrun : c.status.state = .running) :
    c.accelerate.RunScoped := by
  unfold Control.accelerate
  split
  · exact h
  · apply of_running
    · exact hrun
    · exact fun hboth => Bool.false_ne_true hboth.2
    · exact h.armed

theorem commit (h : c.RunScoped) (opts : CncRunOptions) : (c.commit opts).RunScoped := by
  have hrun : ({ c.setRunning opts with
      laserOn := c.laserOn || !c.latch.value
      epitRunning := true
      sdmaEvent := true } : Control).RunScoped := by
    apply of_running
    · rfl
    · exact h.oneRamp
    · intro hdecel
      exact ((Bool.and_eq_true _ _).mp hdecel).2
  unfold Control.commit
  split
  · exact hrun.accelerate rfl
  · exact hrun

/-- The invariant looks at no pin and at neither mask. -/
theorem frame {c' : Control} (h : c.RunScoped)
    (hstatus : c'.status = { c.status with
      triggeredFaults := c'.status.triggeredFaults, streaming := c'.status.streaming })
    (hepit : c'.epitRunning = true → c.epitRunning = true)
    (hevent : c'.sdmaEvent = c.sdmaEvent) : c'.RunScoped := by
  have hstopped (hstate : c.status.state ≠ .running) : c'.epitRunning = false := by
    by_contra hup
    have := hepit (eq_true_of_ne_false hup)
    rw [(h.stopped hstate).1] at this
    cases this
  constructor
  · intro hstate
    rw [hstatus] at hstate
    exact ⟨hstopped hstate, hevent.trans (h.stopped hstate).2⟩
  · intro hstate
    rw [hstatus] at hstate ⊢
    have hquiet := h.quiet hstate
    exact ⟨hquiet.waypointArmed, hquiet.decelOnInterrupt, hquiet.runningBackward,
      hquiet.accelerating, hquiet.decelerating⟩
  · rw [hstatus]
    exact h.oneRamp
  · rw [hstatus]
    exact h.armed

theorem latchFaults (h : c.RunScoped) : c.latchFaults.RunScoped := by
  obtain ⟨pending, triggered, hframe⟩ := c.latchFaults_frame
  rw [hframe]
  exact h.frame rfl id rfl

theorem setState (h : c.RunScoped) (hfrom : c.status.state ≠ .running) (state : CncState) :
    (c.setState state).RunScoped := by
  have hquiet := h.quiet hfrom
  have hstopped := h.stopped hfrom
  apply of_quiet
  · exact ⟨hquiet.waypointArmed, hquiet.decelOnInterrupt, hquiet.runningBackward,
      hquiet.accelerating, hquiet.decelerating⟩
  · exact hstopped.1
  · exact hstopped.2

theorem unlock (h : c.RunScoped) : c.unlock.RunScoped := by
  unfold Control.unlock
  split <;> exact h.frame rfl id rfl

theorem step {c' : Control} {o : List Notice} (h : c.RunScoped) (hstep : Control.Step c o c') :
    c'.RunScoped := by
  cases hstep with
  | keep => exact h
  | commit opts hclear hstate => exact h.commit opts
  | stop nextState hfrom hnext => exact stop c nextState
  | decelerate hrun => exact h.decelerate hrun
  | waypoint harmed => exact h.waypoint (h.running_of_armed harmed)
  | accelerated hacc hdec =>
      apply of_running
      · exact h.running_of_accelerating hacc
      · exact fun hboth => Bool.false_ne_true hboth.1
      · exact h.armed
  | unlock => exact h.unlock
  | lock => exact h.frame rfl id rfl
  | shutdown => exact h.frame rfl id rfl
  | panic => exact h.frame rfl (fun hup => absurd hup Bool.false_ne_true) rfl
  | recover hstate => exact h.frame rfl id rfl
  | enable hclear hstate =>
      apply h.setState
      rcases hstate with hstate | hstate <;> rw [hstate] <;> decide
  | acknowledge hstate =>
      apply h.setState
      rw [hstate]
      decide
  | streaming b => exact h.frame rfl id rfl
  | assert f => exact h.frame rfl id rfl
  | latch hstate => exact h.latchFaults
  | fault hstate => exact stop _ .fault

end RunScoped

end Control

namespace Threads

theorem runScoped_probe (ringMb : Nat) (args : ScriptArgs) (lines : PinId → Bool)
    (railOn : Bool) : (probe ringMb args lines railOn).shared.control.RunScoped :=
  .of_quiet ⟨rfl, rfl, rfl, rfl, rfl⟩ rfl rfl

theorem runScoped_reachable {ringMb : Nat} {args : ScriptArgs} {lines : PinId → Bool}
    {railOn : Bool} {T : Threads}
    (h : System.Reachable step (probe ringMb args lines railOn) T) :
    T.shared.control.RunScoped := by
  apply reachable_control h (runScoped_probe ringMb args lines railOn)
  intro c o c' hinv hstep
  exact hinv.step hstep

/-- In every state that threads and callbacks reach from probe: outside RUNNING the timer
is stopped, its event is disabled and no flag of a run is up. -/
theorem run_scoped_state_never_leaks {ringMb : Nat} {args : ScriptArgs} {lines : PinId → Bool}
    {railOn : Bool} {T : Threads}
    (h : System.Reachable step (probe ringMb args lines railOn) T) :
    (T.shared.status.state ≠ .running →
      T.shared.epit.running = false ∧ T.shared.sdmaEvent = false ∧ T.shared.status.Quiet) ∧
    ¬(T.shared.status.accelerating = true ∧ T.shared.status.decelerating = true) ∧
    (T.shared.status.decelOnInterrupt = true → T.shared.status.waypointArmed = true) := by
  have hinv : T.shared.control.RunScoped := runScoped_reachable h
  refine ⟨?_, hinv.oneRamp, hinv.armed⟩
  intro hstate
  have hstopped := hinv.stopped hstate
  exact ⟨hstopped.1, hstopped.2, hinv.quiet hstate⟩

/-- A resume is halted while it accelerates; the ramp timer that was queued fires after. -/
theorem run_scoped_state_never_leaks_staleTimer :
    ∃ T : Threads, System.Reachable step bench T ∧ T.shared.status.state = .idle ∧
      T.shared.epit.running = false ∧ T.shared.sdmaEvent = false ∧ T.shared.status.Quiet := by
  have hrun : ((System.execute step (callWrite 0 [0x10] ++ call 0 (.start (.resume 5)) 15 ++
      [.surround .rampTimer, .surround .halt, .surround .rampTimer]) bench).map
        fun r => r.2.shared.status.state) = some .idle := by decide +kernel
  obtain ⟨r, hexec, hidle⟩ := Option.map_eq_some_iff.mp hrun
  have hreach : System.Reachable step bench r.2 := ⟨_, _, hexec⟩
  have hstopped := (run_scoped_state_never_leaks hreach).1 (by rw [hidle]; decide)
  exact ⟨r.2, hreach, hidle, hstopped⟩

end Threads

end Glowforge.Cnc
