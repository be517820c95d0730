import Glowforge.Cnc.StartRace
import Glowforge.Cnc.FaultLatch

/-! The pins each step of the host writes an output value to, and that it gives no other
pin one. -/
namespace Glowforge.Cnc
open Foundation Sdma

def drivenPins (changeSet : List (PinId × PinValue)) : List PinId :=
  (changeSet.filter fun change => change.2 ≠ .hiZ).map Prod.fst

def stopWrites (nextState : CncState) : List PinId :=
  drivenPins (if nextState = .disabled then cncShutdownPinChanges else cncStopPinChanges)

namespace Driver

/-- The writes of a commit: the FIRE-drive restore, and two pins of the host's own. -/
def commitWrites (d : Driver) : List PinId :=
  (if gpioGetValue d.pins .laserLatchReset then [] else [.laserOn]) ++ [.beamLatchReset, .chargePump]

def faultPending (d : Driver) : Bool := FaultCondition.all.any fun f => bit d.pendingFaults f.bit

def hostWrites (d : Driver) : Surrounding → List PinId
  | .halt => if d.status.state = .running then stopWrites .idle else []
  | .setLaserLatch value =>
      .laserLatchReset ::
        if value = 0 ∧ d.status.state ≠ .running ∧ !d.status.accelerating ∧ !d.status.decelerating
        then [.laserOn] else []
  | .rampTimer =>
      if d.status.decelerating ∧ d.rampStepFreq ≤ rampMinStepFrequency then stopWrites .idle else []
  | .chargePumpTimer => if d.status.state = .running then [.chargePump] else []
  | .sdmaInterrupt =>
      if d.sdmaMailbox ≠ 0 ∧ d.status.state = .running then
        stopWrites (if d.status.streaming then .underrun else .idle)
      else []
  | .faultTasklet => if d.faultPending ∧ d.status.state ≠ .fault then stopWrites .fault else []
  | .panic => drivenPins cncShutdownPinChanges
  | _ => []

end Driver

def Call.hostWrites (d : Driver) : Call → List PinId
  | .start _ (.power _ _ .pins) | .enable (.power .pins) => drivenPins cncStartupPinChanges
  | .start _ .pinsOff | .enable .pinsOff => drivenPins cncShutdownPinChanges
  | .start _ (.commit gen _) =>
      if d.status.triggeredFaults = 0 ∧ d.stopGeneration = gen ∧
          (d.status.state = .idle ∨ d.status.state = .disabled) then d.commitWrites
      else []
  | .disable .check =>
      match d.status.state with
      | .idle | .running | .underrun => stopWrites .disabled
      | .disabled | .fault => []
  | .close .halt => if d.status.state = .running then stopWrites .idle else []
  | .close .relock => [.laserLatchReset]
  | .zStep _ .dir | .zStep _ .dirOff => [.zDir]
  | .zStep _ .rise | .zStep _ .fall => [.zStep]
  | _ => []

def Threads.hostWrites (T : Threads) : Threads.Action → List PinId
  | .thread i _ => (T.threads i).hostWrites T.shared
  | .surround event => T.shared.hostWrites event

/-! Nothing but these writes gives a pin an output value. -/

/-- The pin keeps its value register, and is not driven anew. -/
def Pin.Unwritten (q q' : Pin) : Prop := q'.data = q.data ∧ (q'.output = true → q.output = true)

theorem Pin.Unwritten.refl (q : Pin) : q.Unwritten q := ⟨rfl, id⟩

theorem Pin.Unwritten.trans {q q' q'' : Pin} (h : q.Unwritten q') (h' : q'.Unwritten q'') :
    q.Unwritten q'' :=
  ⟨h'.1.trans h.1, fun hout => h.2 (h'.2 hout)⟩

def Leaves (written : List PinId) (ps ps' : Pins) : Prop :=
  ∀ p, p ∉ written → (ps p).Unwritten (ps' p)

namespace Leaves

variable {written : List PinId} {ps ps' ps'' : Pins}

theorem refl (written : List PinId) (ps : Pins) : Leaves written ps ps :=
  fun p _ => .refl (ps p)

theorem trans (h : Leaves written ps ps') (h' : Leaves written ps' ps'') :
    Leaves written ps ps'' :=
  fun p hp => (h p hp).trans (h' p hp)

theorem mono (h : Leaves written ps ps') {more : List PinId} (hmore : written ⊆ more) :
    Leaves more ps ps' :=
  fun p hp => h p fun hmem => hp (hmore hmem)

theorem setValue (ps : Pins) (p : PinId) (value : Bool) :
    Leaves [p] ps (gpioSetValue ps p value) := by
  intro q hq
  have hne : q ≠ p := fun heq => hq (List.mem_singleton.mpr heq)
  have hsame : gpioSetValue ps p value q = ps q := Function.update_of_ne hne _ _
  rw [hsame]
  exact .refl (ps q)

theorem directionOutput (ps : Pins) (p : PinId) (value : Bool) :
    Leaves [p] ps (gpioDirectionOutput ps p value) := by
  intro q hq
  have hne : q ≠ p := fun heq => hq (List.mem_singleton.mpr heq)
  have hsame : gpioDirectionOutput ps p value q = ps q := Function.update_of_ne hne _ _
  rw [hsame]
  exact .refl (ps q)

theorem update {ps : Pins} {p : PinId} {q : Pin} (hdata : q.data = (ps p).data)
    (houtput : q.output = true → (ps p).output = true) (written : List PinId) :
    Leaves written ps (Function.update ps p q) := by
  intro r _
  by_cases hr : r = p
  · subst hr
    rw [Function.update_self]
    exact ⟨hdata, houtput⟩
  · rw [Function.update_of_ne hr]
    exact .refl (ps r)

theorem directionInput (ps : Pins) (p : PinId) (written : List PinId) :
    Leaves written ps (gpioDirectionInput ps p) :=
  update (q := (ps p).directionInput) rfl (fun hout => absurd hout Bool.false_ne_true) written

theorem changePins (ps : Pins) (changeSet : List (PinId × PinValue)) :
    Leaves (drivenPins changeSet) ps (ioChangePins ps changeSet) := by
  induction changeSet generalizing ps with
  | nil => exact .refl _ ps
  | cons change rest ih =>
      obtain ⟨p, v⟩ := change
      have hrest : Leaves (drivenPins ((p, v) :: rest)) (changePin ps (p, v))
          (ioChangePins (changePin ps (p, v)) rest) := by
        apply (ih _).mono
        apply List.map_subset
        exact ((List.sublist_cons_self _ _).filter _).subset
      refine trans ?_ hrest
      cases v with
      | hiZ => exact directionInput ps p _
      | low =>
          apply (directionOutput ps p false).mono
          simp [drivenPins]
      | high =>
          apply (directionOutput ps p true).mono
          simp [drivenPins]

end Leaves

namespace Driver

theorem leaves_driverStop (d : Driver) (inSoftirq : Bool) (nextState : CncState) :
    Leaves (stopWrites nextState) d.pins (d.driverStop inSoftirq nextState).pins := by
  unfold driverStop stopWrites
  by_cases hnext : nextState = .disabled
  · simp only [if_pos hnext]
    exact .changePins _ _
  · simp only [if_neg hnext]
    exact .changePins _ _

theorem pins_cncAccelStart (d : Driver) : d.cncAccelStart.pins = d.pins := by
  unfold cncAccelStart
  split <;> rfl

theorem leaves_cncDecelStart (d : Driver) (written : List PinId) :
    Leaves written d.pins d.cncDecelStart.pins := by
  unfold cncDecelStart
  split
  · exact .refl _ _
  · exact .directionInput _ _ _

theorem leaves_commit (d : Driver) (opts : CncRunOptions) :
    Leaves d.commitWrites d.pins (d.commit opts).pins := by
  have hdrive : Leaves d.commitWrites d.pins (d.setRunning opts).restoreDrive.pins := by
    unfold restoreDrive commitWrites
    have hlatch : gpioGetValue (d.setRunning opts).pins .laserLatchReset =
        gpioGetValue d.pins .laserLatchReset := rfl
    rw [hlatch]
    by_cases hlocked : gpioGetValue d.pins .laserLatchReset = true
    · rw [if_pos hlocked, if_pos hlocked]
      exact .refl _ _
    · rw [if_neg hlocked, if_neg hlocked]
      exact (Leaves.directionOutput _ _ _).mono (by simp)
  have hpulse (e : Driver) {p : PinId} (value : Bool) (hp : p = .beamLatchReset ∨ p = .chargePump) :
      Leaves d.commitWrites e.pins (e.setPin p value).pins := by
    apply (Leaves.setValue e.pins p value).mono
    rcases hp with rfl | rfl <;> simp [commitWrites]
  have htimer (e : Driver) : (e.startTimer opts).pins = e.pins := by
    unfold startTimer
    cases opts.accelerate with
    | true => exact pins_cncAccelStart _
    | false => rfl
  unfold commit
  rw [htimer]
  unfold toggleChargePump beamDetectLatchReset
  exact ((((hdrive.trans (hpulse _ _ (.inl rfl))).trans (hpulse _ _ (.inl rfl))).trans
    (hpulse _ _ (.inr rfl))).trans (hpulse _ _ (.inr rfl))).trans (hpulse _ _ (.inr rfl))

theorem around_leaves {d : Driver} {event : Surrounding} {r : List Notice × Driver}
    (h : d.around event = some r) (htick : ∀ fuel, event ≠ .tick fuel) :
    Leaves (d.hostWrites event) d.pins r.2.pins := by
  have hlatch (value : Int) (level : Bool) : Leaves (d.hostWrites (.setLaserLatch value)) d.pins
      (d.setPin .laserLatchReset level).pins :=
    (Leaves.setValue d.pins _ _).mono (by simp [hostWrites])
  have hcase := happens h
  generalize r.1 = o, r.2 = d' at hcase ⊢
  cases hcase with
  | tick hclock hhost => exact absurd rfl (htick _)
  | stopDecelerates hstate => exact leaves_cncDecelStart d _
  | halts hstate =>
      have hwrites : d.hostWrites .halt = stopWrites .idle := if_pos hstate
      rw [hwrites]
      exact leaves_driverStop d true .idle
  | locks hvalue => exact (hlatch _ _).trans (.directionInput _ _ _)
  | unlocks hrest =>
      have hwrites : d.hostWrites (.setLaserLatch 0) = [.laserLatchReset, .laserOn] :=
        congrArg (List.cons _) (if_pos ⟨rfl, hrest⟩)
      refine (hlatch _ _).trans ((Leaves.directionOutput _ _ _).mono ?_)
      rw [hwrites]
      simp
  | unlocksMoving hmoves => exact hlatch _ _
  | rampStops hdec hslow =>
      have hwrites : d.hostWrites .rampTimer = stopWrites .idle := if_pos ⟨hdec, hslow⟩
      rw [hwrites]
      exact leaves_driverStop _ true .idle
  | pumps hstate =>
      have hwrites : d.hostWrites .chargePumpTimer = [.chargePump] := if_pos hstate
      rw [hwrites]
      exact ((Leaves.setValue _ _ _).trans (.setValue _ _ _)).trans (.setValue _ _ _)
  | streamEnds hmail hstate hstream =>
      have hwrites : d.hostWrites .sdmaInterrupt = stopWrites .underrun := by
        simp only [hostWrites, if_pos (And.intro hmail hstate), if_pos hstream]
      rw [hwrites]
      exact leaves_driverStop _ true .underrun
  | runEnds hmail hstate hstream =>
      have hwrites : d.hostWrites .sdmaInterrupt = stopWrites .idle := by
        simp only [hostWrites, if_pos (And.intro hmail hstate), hstream, Bool.false_eq_true, if_false]
      rw [hwrites]
      exact leaves_driverStop d true .idle
  | waypointDecelerates hmail harmed hdecel => exact leaves_cncDecelStart _ _
  | faultsMore hpending hstate =>
      rw [processFaults_pins]
      exact .refl _ _
  | faults hpending hstate =>
      have hany : d.faultPending = true := List.any_eq_true.mpr ⟨_, FaultCondition.mem_all _, hpending⟩
      have hwrites : d.hostWrites .faultTasklet = stopWrites .fault := if_pos ⟨hany, hstate⟩
      have hleaves := leaves_driverStop d.processFaults true .fault
      rw [processFaults_pins] at hleaves
      rw [hwrites]
      exact hleaves
  | panic => exact .changePins _ _
  | @line p level hp => exact .update (q := { d.pins p with line := level }) rfl id _
  | _ => exact .refl _ _

end Driver

namespace Call

variable {i : Nat} {d d' : Driver} {p p' : Call} {o : List Notice}

theorem leaves_supplyOff {written : List PinId} (ok : Bool) (here : SupplyOff → Call)
    {after : Driver → Outcome} (hafter : ∀ d, (after d).2.1 = d) (pc : SupplyOff) :
    Leaves written d.pins (supplyOff d ok here after pc).2.1.pins := by
  have hpins : (supplyOff d ok here after pc).2.1.pins = d.pins := by
    cases pc with
    | check =>
        unfold supplyOff
        cases d.regulatorIsEnabled with
        | true => rfl
        | false => exact congrArg Driver.pins (hafter d)
    | disable =>
        refine (congrArg Driver.pins (hafter _)).trans ?_
        cases ok <;> rfl
  rw [hpins]
  exact .refl _ _

theorem StartStep.leaves {opts : CncRunOptions} {ok : Bool} {pc : StartPc}
    (h : StartStep i d opts ok pc o d' p') :
    Leaves ((Call.start opts pc).hostWrites d) d.pins d'.pins := by
  cases h with
  | committed hclear hgen hstate =>
      have hwrites (gen : Word) (was : Bool) (hgen : d.stopGeneration = gen) :
          (Call.start opts (.commit gen was)).hostWrites d = d.commitWrites :=
        if_pos ⟨hclear, hgen, hstate⟩
      rw [hwrites _ _ hgen]
      exact Driver.leaves_commit d opts
  | powerPins => exact .changePins _ _
  | pinsOff => exact .changePins _ _
  | powerEnable => cases ok <;> exact .refl _ _
  | supplyDisable => cases ok <;> exact .refl _ _
  | _ => exact .refl _ _

theorem leaves_enable (d : Driver) (ok : Bool) (pc : EnablePc) :
    Leaves ((Call.enable pc).hostWrites d) d.pins (stepEnable d ok pc).2.1.pins := by
  cases pc with
  | check =>
      unfold stepEnable
      cases d.status.state with
      | disabled =>
          dsimp only
          split <;> exact .refl _ _
      | fault =>
          dsimp only
          split <;> exact .refl _ _
      | idle => exact .refl _ _
      | running => exact .refl _ _
      | underrun => exact .refl _ _
  | power pc =>
      cases pc with
      | check => exact .refl _ _
      | enable => cases ok <;> exact .refl _ _
      | pins => exact .changePins _ _
  | commit =>
      simp only [stepEnable]
      split
      · exact .refl _ _
      · split <;> exact .refl _ _
  | supplyOff pc => exact leaves_supplyOff ok _ (fun _ => rfl) pc
  | pinsOff => exact .changePins _ _

theorem leaves_disable (d : Driver) (ok : Bool) (pc : DisablePc) :
    Leaves ((Call.disable pc).hostWrites d) d.pins (stepDisable d ok pc).2.1.pins := by
  cases pc with
  | check =>
      unfold stepDisable hostWrites
      cases d.status.state with
      | idle => exact Driver.leaves_driverStop d true .disabled
      | running => exact Driver.leaves_driverStop d true .disabled
      | underrun => exact Driver.leaves_driverStop d true .disabled
      | disabled => exact .refl _ _
      | fault => exact .refl _ _
  | supplyOff pc => exact leaves_supplyOff ok _ (fun _ => rfl) pc

theorem leaves_close (d : Driver) (pc : ClosePc) :
    Leaves ((Call.close pc).hostWrites d) d.pins (stepClose d pc).2.1.pins := by
  cases pc with
  | state =>
      simp only [stepClose]
      split <;> exact .refl _ _
  | halt =>
      have hhalt : d.around .halt = some d.cncHalt := rfl
      exact Driver.around_leaves hhalt (by rintro _ ⟨⟩)
  | relock =>
      have hlatch : d.around (.setLaserLatch 1) = some (d.cncSetLaserLatch 1) := rfl
      exact Driver.around_leaves hlatch (by rintro _ ⟨⟩)

theorem leaves_zStep (d : Driver) (direction : Bool) (pc : ZStepPc) :
    Leaves ((Call.zStep direction pc).hostWrites d) d.pins (stepZ d direction pc).2.1.pins := by
  cases pc with
  | check =>
      unfold stepZ
      cases d.status.state <;> exact .refl _ _
  | dir => exact .setValue _ _ _
  | rise => exact .setValue _ _ _
  | fall => exact .setValue _ _ _
  | dirOff => exact .setValue _ _ _

theorem WriteStep.leaves {data : List Byte} {ok : Bool} {pc : WritePc}
    (h : WriteStep i d data ok pc o d' p') (written : List PinId) :
    Leaves written d.pins d'.pins := by
  cases h <;> exact .refl _ _

theorem CopyStep.leaves {data : List Byte} (h : CopyStep d data d' p') (written : List PinId) :
    Leaves written d.pins d'.pins := by
  cases h <;> exact .refl _ _

theorem ClearStep.leaves {data position ok : Bool} {pc : ClearPc}
    (h : ClearStep i d data position ok pc o d' p') (written : List PinId) :
    Leaves written d.pins d'.pins := by
  cases h <;> exact .refl _ _

theorem next_leaves {move : Move} {r : Outcome} (h : next i d p move = some r) :
    Leaves (p.hostWrites d) d.pins r.2.1.pins := by
  unfold next at h
  split at h
  · rename_i call
    cases hcall : call.options with
    | error e =>
        rw [hcall] at h
        cases h
        exact .refl _ _
    | ok opts =>
        rw [hcall] at h
        cases h
        exact .refl _ _
  · cases h
    exact .refl _ _
  · cases h
    exact .refl _ _
  · cases h
    exact .refl _ _
  · cases h
    exact .refl _ _
  · split at h
    · cases h
      exact .refl _ _
    · cases h
  · cases h
    exact .refl _ _
  · exact (startStep_of_step h).leaves
  · cases h
    exact leaves_enable d _ _
  · cases h
    exact leaves_disable d _ _
  · cases h
    exact leaves_close d _
  · cases h
    exact leaves_zStep d _ _
  · exact (writeStep_of_step h).leaves _
  · exact (copyStep_of_step h).2.leaves _
  · exact (clearStep_of_step h).leaves _
  · cases h

end Call

/-- A step of the host writes only the pins listed. -/
theorem Threads.step_leaves {T : Threads} {a : Threads.Action} {r : List Notice × Threads}
    (h : T.step a = some r) (htick : ∀ fuel, a ≠ .surround (.tick fuel)) :
    Leaves (T.hostWrites a) T.shared.pins r.2.shared.pins := by
  cases a with
  | thread i move =>
      obtain ⟨d, p, hnext, hr⟩ := Pool.step_thread h
      rw [hr]
      exact Call.next_leaves hnext
  | surround event =>
      obtain ⟨d, haround, hr⟩ := Pool.step_surround h
      rw [hr]
      apply Driver.around_leaves haround
      rintro fuel rfl
      exact htick fuel rfl

end Glowforge.Cnc
