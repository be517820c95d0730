import Glowforge.Cnc.RunScoped

/-! The FIRE line (`PIN_LASER_ON`): it is driven only over an unlocked latch, it is
parked during a controlled deceleration, and a stop parks it until the latch is
unlocked or a run commits. -/
namespace Glowforge.Cnc
open Foundation Sdma

def Notice.restoresDrive : Notice → Prop
  | .committed _ | .unlocked => True
  | _ => False

namespace Control

structure FireSafe (c : Control) : Prop where
  latchOutput : c.latch.output = true
  unlocked : c.laserOn = true → c.latch.value = false
  parked : c.status.decelerating = true → c.laserOn = false

namespace FireSafe

variable {c : Control}

theorem of_parked (houtput : c.latch.output = true) (hparked : c.laserOn = false) :
    c.FireSafe where
  latchOutput := houtput
  unlocked hdriven := absurd (hparked.symm.trans hdriven) Bool.false_ne_true
  parked _ := hparked

theorem of_steady (houtput : c.latch.output = true)
    (hunlocked : c.laserOn = true → c.latch.value = false)
    (hsteady : c.status.decelerating = false) : c.FireSafe where
  latchOutput := houtput
  unlocked := hunlocked
  parked hdec := absurd (hsteady.symm.trans hdec) Bool.false_ne_true

theorem frame {c' : Control} (h : c.FireSafe) (hlatch : c'.latch = c.latch)
    (hlaser : c'.laserOn = c.laserOn)
    (hdec : c'.status.decelerating = true → c.status.decelerating = true) : c'.FireSafe where
  latchOutput := by
    rw [hlatch]
    exact h.latchOutput
  unlocked := by
    rw [hlatch, hlaser]
    exact h.unlocked
  parked hdown := by
    rw [hlaser]
    exact h.parked (hdec hdown)

theorem shutdown (c : Control) : c.shutdown.FireSafe := of_parked rfl rfl

theorem stop (h : c.FireSafe) (nextState : CncState) : (c.stop nextState).FireSafe := by
  unfold Control.stop
  apply of_parked
  · by_cases hnext : nextState = .disabled
    · simp only [if_pos hnext]
      rfl
    · simp only [if_neg hnext]
      exact h.latchOutput
  · by_cases hnext : nextState = .disabled
    · simp only [if_pos hnext]
      rfl
    · simp only [if_neg hnext]

theorem decelerate (h : c.FireSafe) : c.decelerate.FireSafe := by
  unfold Control.decelerate
  split
  · exact h
  · exact of_parked h.latchOutput rfl

theorem waypoint (h : c.FireSafe) : c.waypoint.FireSafe := by
  unfold Control.waypoint
  split
  · apply decelerate
    exact h.frame rfl rfl id
  · exact h.frame rfl rfl id

theorem accelerate (h : c.FireSafe) : c.accelerate.FireSafe := by
  unfold Control.accelerate
  split
  · exact h
  · exact of_steady h.latchOutput h.unlocked rfl

theorem commit (h : c.FireSafe) (opts : CncRunOptions) (hsteady : c.status.decelerating = false) :
    (c.commit opts).FireSafe := by
  have hrun : ({ c.setRunning opts with
      laserOn := c.laserOn || !c.latch.value
      epitRunning := true
      sdmaEvent := true } : Control).FireSafe := by
    apply of_steady
    · exact h.latchOutput
    · intro hdriven
      rcases (Bool.or_eq_true _ _).mp hdriven with hbefore | hlow
      · exact h.unlocked hbefore
      · exact (Bool.not_eq_true' _).mp hlow
    · exact hsteady
  unfold Control.commit
  split
  · exact hrun.accelerate
  · exact hrun

theorem unlock (h : c.FireSafe) : c.unlock.FireSafe := by
  have hlow : (c.setLatch false).latch.value = false := by
    have houtput : (c.setLatch false).latch.output = true := h.latchOutput
    unfold Pin.value
    rw [if_pos houtput]
    rfl
  unfold Control.unlock
  by_cases hrest : c.status.state ≠ .running ∧ !c.status.accelerating ∧ !c.status.decelerating
  · rw [if_pos hrest]
    apply of_steady
    · exact h.latchOutput
    · exact fun _ => hlow
    · exact (Bool.not_eq_true' _).mp hrest.2.2
  · rw [if_neg hrest]
    exact ⟨h.latchOutput, fun _ => hlow, h.parked⟩

theorem latchFaults (h : c.FireSafe) : c.latchFaults.FireSafe := by
  obtain ⟨pending, triggered, hframe⟩ := c.latchFaults_frame
  rw [hframe]
  exact h.frame rfl rfl id

theorem step {c' : Control} {o : List Notice} (h : c.FireSafe) (hscoped : c.RunScoped)
    (hstep : Control.Step c o c') : c'.FireSafe := by
  cases hstep with
  | keep => exact h
  | commit opts hclear hstate =>
      apply h.commit opts
      apply (hscoped.quiet _).decelerating
      rcases hstate with hstate | hstate <;> rw [hstate] <;> decide
  | stop nextState hfrom hnext => exact h.stop nextState
  | decelerate hrun => exact h.decelerate
  | waypoint harmed => exact h.waypoint
  | accelerated hacc hdec => exact of_steady h.latchOutput h.unlocked rfl
  | unlock => exact h.unlock
  | lock => exact of_parked h.latchOutput rfl
  | shutdown => exact shutdown c
  | panic => exact of_parked rfl rfl
  | recover hstate => exact h.frame rfl rfl id
  | enable hclear hstate => exact h.frame rfl rfl id
  | acknowledge hstate => exact h.frame rfl rfl id
  | streaming b => exact h.frame rfl rfl id
  | assert f => exact h.frame rfl rfl id
  | latch hstate => exact h.latchFaults
  | fault hstate => exact h.latchFaults.stop .fault

end FireSafe

theorem Step.parks {c c' : Control} {o : List Notice} {next : CncState}
    (hstep : Step c o c') (hstop : .stopped next ∈ o) : c'.laserOn = false := by
  have hparks (c : Control) (nextState : CncState) : (c.stop nextState).laserOn = false := by
    unfold Control.stop
    by_cases hnext : nextState = .disabled
    · simp only [if_pos hnext]
      rfl
    · simp only [if_neg hnext]
  cases hstep with
  | stop nextState hfrom hnext => exact hparks c nextState
  | fault hstate => exact hparks _ .fault
  | _ => simp at hstop

theorem Step.stays_parked {c c' : Control} {o : List Notice} (hstep : Step c o c')
    (hquiet : ∀ n ∈ o, ¬n.restoresDrive) (hparked : c.laserOn = false) : c'.laserOn = false := by
  have hdecelerate {c : Control} (hparked : c.laserOn = false) : c.decelerate.laserOn = false := by
    unfold Control.decelerate
    split
    · exact hparked
    · rfl
  cases hstep with
  | commit opts hclear hstate => exact absurd trivial (hquiet _ List.mem_cons_self)
  | unlock => exact absurd trivial (hquiet _ List.mem_cons_self)
  | stop nextState hfrom hnext => exact Step.parks (.stop nextState hfrom hnext) List.mem_cons_self
  | fault hstate => exact Step.parks (.fault hstate) List.mem_cons_self
  | decelerate hrun => exact hdecelerate hparked
  | waypoint harmed =>
      unfold Control.waypoint
      split
      · exact hdecelerate hparked
      · exact hparked
  | latch hstate =>
      obtain ⟨pending, triggered, hframe⟩ := c.latchFaults_frame
      rw [hframe]
      exact hparked
  | lock => rfl
  | shutdown => rfl
  | panic => rfl
  | keep => exact hparked
  | accelerated hacc hdec => exact hparked
  | recover hstate => exact hparked
  | enable hclear hstate => exact hparked
  | acknowledge hstate => exact hparked
  | streaming b => exact hparked
  | assert f => exact hparked

end Control

namespace Threads

theorem fireSafe_reachable {ringMb : Nat} {args : ScriptArgs} {lines : PinId → Bool}
    {railOn : Bool} {T : Threads}
    (h : System.Reachable step (probe ringMb args lines railOn) T) :
    T.shared.control.FireSafe := by
  have hinit : (probe ringMb args lines railOn).shared.control.FireSafe := .of_parked rfl rfl
  have hboth : T.shared.control.RunScoped ∧ T.shared.control.FireSafe := by
    apply reachable_control (I := fun c => c.RunScoped ∧ c.FireSafe) h
    · exact ⟨runScoped_probe ringMb args lines railOn, hinit⟩
    · intro c o c' hinv hstep
      exact ⟨hinv.1.step hstep, hinv.2.step hinv.1 hstep⟩
  exact hboth.2

private theorem parked_run {as : List Action} {T : Threads} {r : List Notice × Threads}
    (hparked : T.shared.control.laserOn = false) (hexec : System.execute step as T = some r)
    (hquiet : ∀ n ∈ r.1, ¬n.restoresDrive) : r.2.shared.control.laserOn = false := by
  have halong := System.along_of_output hexec hquiet
  have hrun := System.execute_guarded (I := fun T : Threads => T.shared.control.laserOn = false)
    (P := fun _ => True) (fun T a r hinv hguard hstep => ?_) hparked halong hexec
  · exact hrun.1
  · refine ⟨(step_simulated hstep).stays_parked ?_ hinv, fun _ _ => trivial⟩
    intro n hn
    exact hguard r hstep n (List.mem_filter.mp hn).1

/-- In every reachable state the FIRE line is driven only over an unlocked latch and is
parked during a deceleration; a stop parks it, and it stays parked in every run from
there that neither unlocks the latch nor commits. -/
theorem fire_line_invariant {ringMb : Nat} {args : ScriptArgs} {lines : PinId → Bool}
    {railOn : Bool} {T : Threads}
    (h : System.Reachable step (probe ringMb args lines railOn) T) :
    ((T.shared.pins .laserOn).output = true →
      (T.shared.pins .laserLatchReset).output = true ∧
        gpioGetValue T.shared.pins .laserLatchReset = false) ∧
    (T.shared.status.decelerating = true → (T.shared.pins .laserOn).output = false) ∧
    ∀ a r next, T.step a = some r → .stopped next ∈ r.1 →
      ∀ as r', System.execute step as r.2 = some r' → (∀ n ∈ r'.1, ¬n.restoresDrive) →
        (r'.2.shared.pins .laserOn).output = false := by
  have hinv := fireSafe_reachable h
  refine ⟨?_, hinv.parked, ?_⟩
  · intro hdriven
    exact ⟨hinv.latchOutput, hinv.unlocked hdriven⟩
  · intro a r next hstep hstop as r' hexec hquiet
    have hparked : r.2.shared.control.laserOn = false :=
      (step_simulated hstep).parks (List.mem_filter.mpr ⟨hstop, rfl⟩)
    exact parked_run hparked hexec hquiet

/-- A run over an unlocked latch drives the line; a halt parks it, and locking the latch
leaves it parked. -/
theorem fire_line_invariant_halt :
    ∃ T : Threads, System.Reachable step bench T ∧ (T.shared.pins .laserOn).output = true ∧
      gpioGetValue T.shared.pins .laserLatchReset = false ∧
      ∃ r r', T.step (.surround .halt) = some r ∧
        System.execute step [.surround (.setLaserLatch 1)] r.2 = some r' ∧
        (r'.2.shared.pins .laserOn).output = false := by
  have hrun : ((System.execute step (.surround (.setLaserLatch 0) :: callWrite 0 [0x10] ++
      call 0 (.start .run) 16) bench).bind fun q => (q.2.step (.surround .halt)).bind fun r =>
        (System.execute step [.surround (.setLaserLatch 1)] r.2).map fun r' =>
          ((q.2.shared.pins .laserOn).output, r.1, r'.1)) =
      some (true, [.stopped .idle, .returned none], []) := by decide +kernel
  obtain ⟨q, hexec, hrest⟩ := Option.bind_eq_some_iff.mp hrun
  obtain ⟨r, hhalt, hrest⟩ := Option.bind_eq_some_iff.mp hrest
  obtain ⟨r', hlock, hseen⟩ := Option.map_eq_some_iff.mp hrest
  injection hseen with hdriven hseen
  injection hseen with hstopped hquiet
  have hreach : System.Reachable step bench q.2 := ⟨_, _, hexec⟩
  have hline := fire_line_invariant hreach
  refine ⟨q.2, hreach, hdriven, (hline.1 hdriven).2, r, r', hhalt, hlock, ?_⟩
  apply hline.2.2 _ r .idle hhalt (by rw [hstopped]; exact List.mem_cons_self) _ r' hlock
  rw [hquiet]
  exact fun n hn => absurd hn List.not_mem_nil

end Threads

end Glowforge.Cnc
