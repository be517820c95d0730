import Glowforge.Cnc.Control

/-! The driver takes its run control through the steps of `Control.Step`, and through no
others: one lemma for each operation, and one for the events around the threads. -/
namespace Glowforge.Cnc
open Foundation Sdma

namespace Driver

/-- A step of the driver, seen as a step of its run control. -/
def Simulated (o : List Notice) (d d' : Driver) : Prop :=
  Control.Step d.control (o.filter Notice.loud) d'.control

theorem simulated_keep {o : List Notice} {d d' : Driver} (ho : o.filter Notice.loud = [])
    (hcontrol : d'.control = d.control) : Simulated o d d' := by
  unfold Simulated
  rw [ho, hcontrol]
  exact .keep

theorem simulated_shutdown (d : Driver) (e : Option Errno) :
    Simulated [.returned e] d (d.changePins cncShutdownPinChanges) := by
  unfold Simulated
  rw [control_changePins_shutdown]
  exact .shutdown

theorem simulated_powerOn (d : Driver) (ok : Bool) (here : PowerOn → Call) (after : Call)
    (pc : PowerOn) : Simulated (Call.powerOn d ok here after pc).1 d
      (Call.powerOn d ok here after pc).2.1 := by
  cases pc with
  | check => exact .keep
  | enable => cases ok <;> exact .keep
  | pins => exact simulated_keep rfl (control_changePins_startup d)

theorem simulated_supplyOff {d : Driver} {ok : Bool} {here : SupplyOff → Call}
    {after : Driver → Outcome} (hafter : ∀ d, Simulated (after d).1 d (after d).2.1)
    (pc : SupplyOff) : Simulated (Call.supplyOff d ok here after pc).1 d
      (Call.supplyOff d ok here after pc).2.1 := by
  cases pc with
  | check =>
      unfold Call.supplyOff
      cases d.regulatorIsEnabled with
      | true => exact .keep
      | false => exact hafter d
  | disable =>
      have hcontrol : (d.regulatorDisable ok).control = d.control := by
        cases ok <;> rfl
      have h := hafter (d.regulatorDisable ok)
      unfold Simulated at h
      rw [hcontrol] at h
      exact h

theorem simulated_commitStart (d : Driver) (opts : CncRunOptions) (gen : Word) (was : Bool) :
    Simulated (Call.commitStart d opts gen was).1 d (Call.commitStart d opts gen was).2.1 := by
  unfold Call.commitStart
  by_cases hfaults : d.status.triggeredFaults ≠ 0
  · rw [if_pos hfaults]
    exact .keep
  · rw [if_neg hfaults]
    by_cases hmoved : d.stopGeneration ≠ gen ∨ d.status.state ≠ .idle ∧ d.status.state ≠ .disabled
    · rw [if_pos hmoved]
      exact .keep
    · rw [if_neg hmoved]
      have hstate : d.status.state = .idle ∨ d.status.state = .disabled := by
        by_contra hother
        exact hmoved (.inr (not_or.mp hother))
      unfold Simulated
      rw [control_commit]
      exact .commit opts (not_not.mp hfaults) hstate

theorem simulated_start {i : Nat} {d : Driver} {opts : CncRunOptions} {ok : Bool} {pc : StartPc}
    {r : Outcome} (h : Call.stepStart i d opts ok pc = some r) : Simulated r.1 d r.2.1 := by
  cases pc with
  | check =>
      simp only [Call.stepStart] at h
      split at h <;> cases h <;> exact .keep
  | sample =>
      cases h
      exact .keep
  | empty gen =>
      simp only [Call.stepStart] at h
      split at h <;> cases h <;> exact .keep
  | verify gen =>
      simp only [Call.stepStart] at h
      split at h <;> cases h <;> exact .keep
  | lock gen =>
      simp only [Call.stepStart] at h
      split at h <;> cases h
      exact .keep
  | length gen =>
      simp only [Call.stepStart] at h
      split at h
      · split at h <;> cases h <;> exact .keep
      · cases h
        exact .keep
  | regs gen =>
      simp only [Call.stepStart] at h
      split at h <;> cases h <;> exact .keep
  | inhibit gen =>
      simp only [Call.stepStart] at h
      split at h <;> cases h <;> exact .keep
  | mailbox gen =>
      cases h
      exact .keep
  | wasPowered gen =>
      cases h
      exact .keep
  | power gen was pc =>
      cases h
      exact simulated_powerOn _ _ _ _ pc
  | duty gen was =>
      cases h
      exact .keep
  | commit gen was =>
      cases h
      exact simulated_commitStart d opts gen was
  | unlock was e =>
      simp only [Call.stepStart] at h
      split at h <;> cases h <;> exact .keep
  | refuse e =>
      cases h
      exact .keep
  | supplyOff pc =>
      cases h
      apply simulated_supplyOff
      intro d
      exact .keep
  | pinsOff =>
      cases h
      exact simulated_shutdown d _

theorem simulated_enable (d : Driver) (ok : Bool) (pc : EnablePc) :
    Simulated (Call.stepEnable d ok pc).1 d (Call.stepEnable d ok pc).2.1 := by
  cases pc with
  | check =>
      unfold Call.stepEnable
      cases hstate : d.status.state with
      | disabled =>
          by_cases hfaults : d.status.triggeredFaults &&& fatalFaultConditions ≠ 0
          · simp only [if_pos hfaults]
            exact .keep
          · simp only [if_neg hfaults]
            exact .keep
      | fault =>
          by_cases hlive : d.liveFaults &&& ~~~d.ignoredFaults ≠ 0
          · simp only [if_pos hlive]
            exact .keep
          · simp only [if_neg hlive]
            exact .recover hstate
      | idle => exact .keep
      | running => exact .keep
      | underrun => exact .keep
  | power pc => exact simulated_powerOn _ _ _ _ pc
  | commit =>
      unfold Call.stepEnable
      by_cases hfaults : d.status.triggeredFaults &&& fatalFaultConditions ≠ 0
      · simp only [if_pos hfaults]
        exact .keep
      · simp only [if_neg hfaults]
        by_cases hstate : d.status.state = .disabled ∨ d.status.state = .fault
        · simp only [if_pos hstate]
          exact .enable (not_not.mp hfaults) hstate
        · simp only [if_neg hstate]
          exact .keep
  | supplyOff pc =>
      apply simulated_supplyOff
      intro d
      exact .keep
  | pinsOff => exact simulated_shutdown d _

theorem simulated_disable (d : Driver) (ok : Bool) (pc : DisablePc) :
    Simulated (Call.stepDisable d ok pc).1 d (Call.stepDisable d ok pc).2.1 := by
  cases pc with
  | check =>
      have hstop (hstate : d.status.state ≠ .fault) :
          Simulated [.stopped .disabled] d (d.driverStop true .disabled) := by
        unfold Simulated
        rw [control_driverStop]
        exact .stop .disabled (.inl hstate) (by decide)
      unfold Call.stepDisable
      cases hstate : d.status.state with
      | idle => exact hstop (by simp [hstate])
      | running => exact hstop (by simp [hstate])
      | underrun => exact hstop (by simp [hstate])
      | disabled => exact .keep
      | fault => exact .keep
  | supplyOff pc =>
      apply simulated_supplyOff
      intro d
      exact .keep

/-! The surroundings. -/

/-- The script drives levels; neither the direction of the FIRE line nor the latch. -/
theorem control_drivePins (d : Driver) (ws : List Word) :
    ({ d with pins := ws.foldl drivePins d.pins } : Driver).control = d.control := by
  have hset (ps : Pins) (w : Word) (changes : List (PinId × Nat))
      (hlatch : PinId.laserLatchReset ∉ changes.map Prod.fst) :
      ({ d with pins := changes.foldl (fun ps p => gpioSetValue ps p.1 (bit w p.2)) ps } :
        Driver).control = ({ d with pins := ps } : Driver).control := by
    induction changes generalizing ps with
    | nil => rfl
    | cons change rest ih =>
        rw [List.map_cons, List.mem_cons, not_or] at hlatch
        rw [List.foldl_cons, ih _ hlatch.2]
        exact control_setPin { d with pins := ps } _ (Ne.symm hlatch.1)
  have hrun (ps : Pins) : ({ d with pins := ws.foldl drivePins ps } : Driver).control =
      ({ d with pins := ps } : Driver).control := by
    induction ws generalizing ps with
    | nil => rfl
    | cons w ws ih =>
        rw [List.foldl_cons, ih]
        exact hset ps w cncSdmaPinSet (by decide)
  exact hrun d.pins

theorem control_line (d : Driver) {p : PinId} (level : Bool) (hp : pinConfigs p = .gpiofIn) :
    ({ d with pins := Function.update d.pins p { d.pins p with line := level } } :
      Driver).control = d.control := by
  have hlatch : Function.update d.pins p { d.pins p with line := level } .laserLatchReset =
      d.pins .laserLatchReset := by
    apply Function.update_of_ne
    rintro rfl
    cases hp
  have hlaser : (Function.update d.pins p { d.pins p with line := level } .laserOn).output =
      (d.pins .laserOn).output := by
    by_cases h : p = .laserOn
    · subst h
      rw [Function.update_self]
    · rw [Function.update_of_ne (Ne.symm h)]
  simp only [control, hlatch, hlaser]

theorem simulated_waypoint {d : Driver} (harmed : d.status.waypointArmed = true) {d' : Driver}
    (hwaypoint : d'.control = d.control.waypoint) : Simulated [] d d' := by
  unfold Simulated
  rw [hwaypoint]
  exact .waypoint harmed

theorem around_simulated {d : Driver} {event : Surrounding} {r : List Notice × Driver}
    (h : d.around event = some r) : Simulated r.1 d r.2 := by
  have hcase := happens h
  generalize r.1 = o, r.2 = d' at hcase ⊢
  cases hcase with
  | stopSettles hstate => exact .acknowledge hstate
  | stopDecelerates hstate =>
      unfold Simulated
      rw [control_cncDecelStart]
      exact .decelerate hstate
  | halts hstate =>
      have hfrom : d.control.status.state ≠ .fault := by
        rw [show d.control.status.state = .running from hstate]
        decide
      unfold Simulated
      rw [control_driverStop]
      exact .stop .idle (.inl hfrom) (by decide)
  | locks hvalue =>
      unfold Simulated
      rw [control_directionInput, control_setLatch]
      exact .lock
  | unlocks hrest =>
      have hunlock : d.control.unlock = { d.control.setLatch false with laserOn := true } :=
        if_pos hrest
      unfold Simulated
      rw [control_directionOutput, control_setLatch, ← hunlock]
      exact .unlock
  | unlocksMoving hmoves =>
      have hunlock : d.control.unlock = d.control.setLatch false := if_neg hmoves
      unfold Simulated
      rw [control_setLatch, ← hunlock]
      exact .unlock
  | streaming => exact .streaming _
  | rampStops hdec hslow =>
      unfold Simulated
      rw [control_driverStop]
      exact .stop .idle (.inr hdec) (by decide)
  | rampArrives hdec hacc hfull => exact .accelerated hacc hdec
  | pumps hstate =>
      apply simulated_keep rfl
      unfold toggleChargePump
      rw [control_setPin _ _ (by decide), control_setPin _ _ (by decide),
        control_setPin _ _ (by decide)]
  | streamEnds hmail hstate hstream =>
      have hfrom : d.control.status.state ≠ .fault := by
        rw [show d.control.status.state = .running from hstate]
        decide
      unfold Simulated
      rw [control_driverStop]
      exact .stop .underrun (.inl hfrom) (by decide)
  | runEnds hmail hstate hstream =>
      have hfrom : d.control.status.state ≠ .fault := by
        rw [show d.control.status.state = .running from hstate]
        decide
      unfold Simulated
      rw [control_driverStop]
      exact .stop .idle (.inl hfrom) (by decide)
  | waypoint hmail harmed hdecel =>
      apply simulated_waypoint harmed
      exact (if_neg (ne_true_of_eq_false hdecel)).symm
  | waypointDecelerates hmail harmed hdecel =>
      apply simulated_waypoint harmed
      rw [control_cncDecelStart]
      exact (if_pos hdecel).symm
  | faultAsserted hlow hheeded => exact .assert _
  | faultsMore hpending hstate =>
      unfold Simulated
      rw [control_processFaults]
      exact .latch hstate
  | faults hpending hstate =>
      unfold Simulated
      rw [control_driverStop, control_processFaults]
      exact .fault hstate
  | panic =>
      unfold Simulated cncPanicHandler
      rw [control_changePins_shutdown]
      exact .panic
  | tick hclock hhost => exact simulated_keep rfl (control_drivePins d _)
  | line hp => exact simulated_keep rfl (control_line d _ hp)
  | _ => exact .keep

/-! The other operations of the threads. -/

theorem simulated_close (d : Driver) (pc : ClosePc) :
    Simulated (Call.stepClose d pc).1 d (Call.stepClose d pc).2.1 := by
  cases pc with
  | state =>
      simp only [Call.stepClose]
      split <;> exact .keep
  | halt =>
      have hhalt : d.around .halt = some d.cncHalt := rfl
      exact around_simulated hhalt
  | relock =>
      have hlatch : d.around (.setLaserLatch 1) = some (d.cncSetLaserLatch 1) := rfl
      exact around_simulated hlatch

theorem simulated_zStep (d : Driver) (direction : Bool) (pc : ZStepPc) :
    Simulated (Call.stepZ d direction pc).1 d (Call.stepZ d direction pc).2.1 := by
  cases pc with
  | check =>
      unfold Call.stepZ
      cases d.status.state <;> exact .keep
  | dir => exact simulated_keep rfl (control_setPin _ _ (by decide))
  | rise => exact simulated_keep rfl (control_setPin _ _ (by decide))
  | fall => exact simulated_keep rfl (control_setPin _ _ (by decide))
  | dirOff => exact simulated_keep rfl (control_setPin _ _ (by decide))

theorem simulated_write {i : Nat} {d : Driver} {data : List Byte} {ok : Bool} {pc : WritePc}
    {r : Outcome} (h : Call.stepWrite i d data ok pc = some r) : Simulated r.1 d r.2.1 := by
  cases pc with
  | lock =>
      simp only [Call.stepWrite] at h
      split at h <;> cases h
      exact .keep
  | check =>
      simp only [Call.stepWrite] at h
      split at h <;> cases h <;> exact .keep
  | sync =>
      simp only [Call.stepWrite] at h
      split at h <;> cases h <;> exact .keep
  | room =>
      simp only [Call.stepWrite] at h
      split at h <;> cases h <;> exact .keep
  | copy => cases h
  | publish =>
      simp only [Call.stepWrite] at h
      split at h <;> cases h <;> exact .keep
  | leave e =>
      cases h
      exact .keep

theorem simulated_copied (d : Driver) (data : List Byte) (outcome : CopyOutcome) :
    Simulated (Call.stepCopy.copied d data outcome).1 d
      (Call.stepCopy.copied d data outcome).2.1 := by
  unfold Call.stepCopy.copied
  split <;> exact .keep

theorem simulated_copy {d : Driver} {data : List Byte} {outcome : CopyOutcome} {r : Outcome}
    (h : Call.stepCopy d data outcome = some r) : Simulated r.1 d r.2.1 := by
  cases outcome with
  | all =>
      cases h
      exact simulated_copied d data .all
  | fault n spill =>
      simp only [Call.stepCopy] at h
      split at h <;> cases h
      exact simulated_copied d data (.fault n spill)

theorem simulated_clear {i : Nat} {d : Driver} {data position ok : Bool} {pc : ClearPc}
    {r : Outcome} (h : Call.stepClear i d data position ok pc = some r) :
    Simulated r.1 d r.2.1 := by
  cases pc with
  | lock =>
      simp only [Call.stepClear] at h
      split at h <;> cases h
      exact .keep
  | check =>
      simp only [Call.stepClear] at h
      split at h <;> cases h <;> exact .keep
  | clear =>
      simp only [Call.stepClear] at h
      split at h <;> cases h <;> exact .keep
  | leave e =>
      cases h
      exact .keep

theorem next_simulated {i : Nat} {d : Driver} {p : Call} {move : Move} {r : Outcome}
    (h : Call.next i d p move = some r) : Simulated r.1 d r.2.1 := by
  unfold Call.next at h
  split at h
  · split at h <;> cases h <;> exact .keep
  · cases h
    exact .keep
  · cases h
    exact .keep
  · cases h
    exact .keep
  · cases h
    exact .keep
  · split at h <;> cases h
    exact .keep
  · cases h
    exact .keep
  · exact simulated_start h
  · cases h
    exact simulated_enable d _ _
  · cases h
    exact simulated_disable d _ _
  · cases h
    exact simulated_close d _
  · cases h
    exact simulated_zStep d _ _
  · exact simulated_write h
  · exact simulated_copy h
  · exact simulated_clear h
  · cases h

end Driver

namespace Threads

theorem step_simulated {T : Threads} {a : Action} {r : List Notice × Threads}
    (h : T.step a = some r) : Driver.Simulated r.1 T.shared r.2.shared := by
  apply Pool.shared_step (R := Driver.Simulated) _ _ h
  · intro i d p move o d' p' hnext
    exact Driver.next_simulated hnext
  · intro d event o d' haround
    exact Driver.around_simulated haround

/-- An invariant of the run control holds in every reachable state. -/
theorem reachable_control {I : Control → Prop} {T₀ T : Threads}
    (h : System.Reachable step T₀ T) (hinit : I T₀.shared.control)
    (hstep : ∀ c o c', I c → Control.Step c o c' → I c') : I T.shared.control := by
  apply h.invariant (I := fun T => I T.shared.control) hinit
  intro T a r hinv hnext
  exact hstep _ _ _ hinv (step_simulated hnext)

end Threads

end Glowforge.Cnc
