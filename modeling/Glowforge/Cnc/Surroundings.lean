import Glowforge.Cnc.Calls

/-! What an event around the threads does: each way it can go, with what it tests. -/
namespace Glowforge.Cnc
open Foundation Sdma

theorem FaultCondition.mem_all (f : FaultCondition) : f ∈ FaultCondition.all := by
  cases f <;> decide

namespace Driver

/-! The loop of the fault tasklet. -/

theorem processFault_frame (r : Driver × Bool) (f : FaultCondition) :
    ∃ pending triggered, (processFault r f).1 = { r.1 with
      pendingFaults := pending
      status := { r.1.status with triggeredFaults := triggered } } := by
  unfold processFault
  split
  · exact ⟨_, _, rfl⟩
  · exact ⟨r.1.pendingFaults, r.1.status.triggeredFaults, rfl⟩

theorem foldl_processFault_frame (fs : List FaultCondition) (r : Driver × Bool) :
    ∃ pending triggered, (fs.foldl processFault r).1 = { r.1 with
      pendingFaults := pending
      status := { r.1.status with triggeredFaults := triggered } } := by
  induction fs generalizing r with
  | nil => exact ⟨r.1.pendingFaults, r.1.status.triggeredFaults, rfl⟩
  | cons f fs ih =>
      obtain ⟨pending, triggered, hrest⟩ := ih (processFault r f)
      obtain ⟨pending', triggered', hfirst⟩ := processFault_frame r f
      rw [hfirst] at hrest
      exact ⟨pending, triggered, hrest⟩

/-- Every fault is fatal: a turn that finds none leaves all as it is. -/
theorem processFault_keep {r : Driver × Bool} {f : FaultCondition}
    (h : (processFault r f).2 = false) :
    processFault r f = r ∧ bit r.1.pendingFaults f.bit = false := by
  unfold processFault at h ⊢
  by_cases hbit : bit r.1.pendingFaults f.bit = true
  · rw [if_pos hbit] at h
    have hfatal : bit fatalFaultConditions f.bit = true := by
      cases f <;> rfl
    rw [hfatal, Bool.or_true] at h
    cases h
  · rw [if_neg hbit]
    exact ⟨rfl, eq_false_of_ne_true hbit⟩

theorem processFault_snd {r : Driver × Bool} {f : FaultCondition} (h : r.2 = true) :
    (processFault r f).2 = true := by
  unfold processFault
  split
  · rw [h]
    rfl
  · exact h

theorem foldl_processFault_snd {r : Driver × Bool} (fs : List FaultCondition) (h : r.2 = true) :
    (fs.foldl processFault r).2 = true := by
  induction fs generalizing r with
  | nil => exact h
  | cons f fs ih => exact ih (processFault_snd h)

theorem foldl_processFault_keep {r : Driver × Bool} (fs : List FaultCondition)
    (h : (fs.foldl processFault r).2 = false) :
    fs.foldl processFault r = r ∧ ∀ f ∈ fs, bit r.1.pendingFaults f.bit = false := by
  induction fs generalizing r with
  | nil => exact ⟨rfl, fun f hf => nomatch hf⟩
  | cons f fs ih =>
      rw [List.foldl_cons] at h ⊢
      have hfirst : (processFault r f).2 = false := by
        by_contra hhalt
        rw [foldl_processFault_snd fs (eq_true_of_ne_false hhalt)] at h
        cases h
      obtain ⟨hkeep, hbit⟩ := processFault_keep hfirst
      rw [hkeep] at h ⊢
      obtain ⟨hall, hbits⟩ := ih h
      refine ⟨hall, fun g hg => ?_⟩
      rcases List.mem_cons.mp hg with rfl | hg
      · exact hbit
      · exact hbits g hg

theorem foldl_processFault_quiet {r : Driver × Bool} (fs : List FaultCondition)
    (h : ∀ f ∈ fs, bit r.1.pendingFaults f.bit = false) : fs.foldl processFault r = r := by
  induction fs with
  | nil => rfl
  | cons f fs ih =>
      have hfirst : processFault r f = r := by
        unfold processFault
        exact if_neg (by rw [h f List.mem_cons_self]; decide)
      rw [List.foldl_cons, hfirst]
      exact ih fun g hg => h g (List.mem_cons_of_mem _ hg)

def processFaults (d : Driver) : Driver := (FaultCondition.all.foldl processFault (d, false)).1

theorem processFaults_frame (d : Driver) :
    ∃ pending triggered, d.processFaults = { d with
      pendingFaults := pending
      status := { d.status with triggeredFaults := triggered } } :=
  foldl_processFault_frame FaultCondition.all (d, false)

@[simp] theorem processFaults_state (d : Driver) :
    d.processFaults.status.state = d.status.state := by
  obtain ⟨pending, triggered, hframe⟩ := d.processFaults_frame
  rw [hframe]

@[simp] theorem processFaults_pins (d : Driver) : d.processFaults.pins = d.pins := by
  obtain ⟨pending, triggered, hframe⟩ := d.processFaults_frame
  rw [hframe]

theorem processFaults_quiet {d : Driver}
    (h : ∀ f : FaultCondition, bit d.pendingFaults f.bit = false) :
    FaultCondition.all.foldl processFault (d, false) = (d, false) :=
  foldl_processFault_quiet (r := (d, false)) FaultCondition.all fun f _ => h f

theorem processFaults_halts {d : Driver} {f : FaultCondition}
    (h : bit d.pendingFaults f.bit = true) :
    (FaultCondition.all.foldl processFault (d, false)).2 = true := by
  by_contra hrest
  obtain ⟨-, hbits⟩ := foldl_processFault_keep (r := (d, false)) _ (eq_false_of_ne_true hrest)
  rw [hbits f f.mem_all] at h
  cases h

theorem tick_cases {d : Driver} {fuel : Nat} {r : List Notice × Driver}
    (h : d.tick fuel = some r) : d.epit.running = true ∧ ∃ es c,
      d.buf.engine.host (.tick fuel) = some (es, c) ∧ r = ([.played es], { d with
        buf := { d.buf with engine := c }
        pins := (writesTo d.buf.engine.m.mda es).foldl drivePins d.pins
        sdmaMailbox := (writesTo (d.buf.engine.m.word 21) es).getLastD d.sdmaMailbox }) := by
  unfold tick at h
  split at h
  · rename_i hclock
    obtain ⟨hleft, -⟩ := (Bool.and_eq_true _ _).mp hclock
    obtain ⟨hrunning, -⟩ := (Bool.and_eq_true _ _).mp hleft
    obtain ⟨q, hhost, rfl⟩ := Option.map_eq_some_iff.mp h
    exact ⟨hrunning, q.1, q.2, hhost, rfl⟩
  · cases h

/-- An event around the threads, by the branch it takes. -/
inductive Happens (d : Driver) : Surrounding → List Notice → Driver → Prop where
  | stopRests {ret : Option Errno}
      (hstate : d.status.state ≠ .running ∧ d.status.state ≠ .underrun) :
      Happens d .stop [.returned ret] d
  | stopSettles (hstate : d.status.state = .underrun) :
      Happens d .stop [.returned none] { d with status := { d.status with state := .idle } }
  | stopDecelerates (hstate : d.status.state = .running) :
      Happens d .stop [.returned none] d.cncDecelStart
  | haltRests {ret : Option Errno} (hstate : d.status.state ≠ .running) :
      Happens d .halt [.returned ret] d
  | halts (hstate : d.status.state = .running) :
      Happens d .halt [.stopped .idle, .returned none] (d.driverStop true .idle)
  | locks {value : Int} (hvalue : value ≠ 0) :
      Happens d (.setLaserLatch value) []
        { d.setPin .laserLatchReset true with
          pins := gpioDirectionInput (d.setPin .laserLatchReset true).pins .laserOn }
  | unlocks (hrest : d.status.state ≠ .running ∧ !d.status.accelerating ∧ !d.status.decelerating) :
      Happens d (.setLaserLatch 0) [.unlocked]
        { d.setPin .laserLatchReset false with
          pins := gpioDirectionOutput (d.setPin .laserLatchReset false).pins .laserOn false }
  | unlocksMoving
      (hmoves : ¬(d.status.state ≠ .running ∧ !d.status.accelerating ∧ !d.status.decelerating)) :
      Happens d (.setLaserLatch 0) [.unlocked] (d.setPin .laserLatchReset false)
  | streaming {streaming : Bool} : Happens d (.setStreaming streaming) [] (d.setStreaming streaming)
  | frequencyRefused {freq : Word} {e : Errno} :
      Happens d (.setStepFrequency freq) [.returned (some e)] d
  | frequency {freq : Word} (hrange : ¬(freq < 1000 ∨ freq > 200000))
      (hstate : d.status.state ≠ .running) :
      Happens d (.setStepFrequency freq) [.returned none]
        { d with stepFreq := freq, rampStepFreq := freq }
  | rateRefused {hzPerS : Word} {e : Errno} : Happens d (.setRampRate hzPerS) [.returned (some e)] d
  | rate {hzPerS : Word} (hrange : ¬(hzPerS < 10000 ∨ hzPerS > 500000))
      (hstate : d.status.state ≠ .running) :
      Happens d (.setRampRate hzPerS) [.returned none] { d with rampStepFreqDelta := hzPerS / 100 }
  | maskRefused {mask : Word} : Happens d (.setIgnoredFaults mask) [.returned (some .EINVAL)] d
  | mask {mask : Word} (hmask : ¬mask > 7) :
      Happens d (.setIgnoredFaults mask) [.returned none] { d with ignoredFaults := mask }
  | flock {lock : Bool} : Happens d (.flock lock) [] { d with deadmanSwitchActive := lock }
  | free {fetch : Bool} : Happens d (.free fetch) [] { d with buf := (d.buf.getFreeSpace fetch).2 }
  | rampEnds (hdec : d.status.decelerating = false) (hacc : d.status.accelerating = false) :
      Happens d .rampTimer [] { d with rampTimer := false }
  | rampStops (hdec : d.status.decelerating = true)
      (hslow : d.rampStepFreq ≤ rampMinStepFrequency) :
      Happens d .rampTimer [.stopped .idle] ({ d with rampTimer := false }.driverStop true .idle)
  | rampSlows {freq : Word} (hdec : d.status.decelerating = true)
      (hfast : ¬d.rampStepFreq ≤ rampMinStepFrequency)
      (hfreq : freq = if rampMinStepFrequency + d.rampStepFreqDelta < d.rampStepFreq then
        d.rampStepFreq - d.rampStepFreqDelta else rampMinStepFrequency) :
      Happens d .rampTimer []
        { d with rampStepFreq := freq, epit := { d.epit with hz := freq }, rampTimer := true }
  | rampSpeeds {freq : Word} (hdec : d.status.decelerating = false)
      (hacc : d.status.accelerating = true) (hfreq : freq = d.rampStepFreq + d.rampStepFreqDelta)
      (hslow : ¬d.stepFreq ≤ freq) :
      Happens d .rampTimer []
        { d with rampStepFreq := freq, epit := { d.epit with hz := freq }, rampTimer := true }
  | rampArrives (hdec : d.status.decelerating = false) (hacc : d.status.accelerating = true)
      (hfull : d.stepFreq ≤ d.rampStepFreq + d.rampStepFreqDelta) :
      Happens d .rampTimer [] { d with
        rampTimer := false
        epit := { d.epit with hz := d.stepFreq }
        rampStepFreq := d.stepFreq
        status := { d.status with accelerating := false, decelerating := false } }
  | pumpEnds (hstate : d.status.state ≠ .running) :
      Happens d .chargePumpTimer [] { d with chargePumpTimer := false }
  | pumps (hstate : d.status.state = .running) : Happens d .chargePumpTimer [] d.toggleChargePump
  | interruptLate (hmail : d.sdmaMailbox ≠ 0) (hstate : d.status.state ≠ .running) :
      Happens d .sdmaInterrupt [] d
  | interruptUnarmed (hmail : d.sdmaMailbox = 0) (harmed : d.status.waypointArmed = false) :
      Happens d .sdmaInterrupt [] d
  | streamEnds (hmail : d.sdmaMailbox ≠ 0) (hstate : d.status.state = .running)
      (hstream : d.status.streaming = true) :
      Happens d .sdmaInterrupt [.stopped .underrun]
        ({ d with underrunCount := d.underrunCount + 1 }.driverStop true .underrun)
  | runEnds (hmail : d.sdmaMailbox ≠ 0) (hstate : d.status.state = .running)
      (hstream : d.status.streaming = false) :
      Happens d .sdmaInterrupt [.stopped .idle] (d.driverStop true .idle)
  | waypoint (hmail : d.sdmaMailbox = 0) (harmed : d.status.waypointArmed = true)
      (hdecel : d.status.decelOnInterrupt = false) :
      Happens d .sdmaInterrupt [] { d with status := { d.status with waypointArmed := false } }
  | waypointDecelerates (hmail : d.sdmaMailbox = 0) (harmed : d.status.waypointArmed = true)
      (hdecel : d.status.decelOnInterrupt = true) :
      Happens d .sdmaInterrupt [] { d with
        status := { d.status with waypointArmed := false, decelOnInterrupt := false } }.cncDecelStart
  | faultIgnored {f : FaultCondition}
      (hrest : gpioGetValue d.pins f.gpio = true ∨ bit d.ignoredFaults f.bit = true) :
      Happens d (.faultIrq f) [] d
  | faultAsserted {f : FaultCondition} (hlow : gpioGetValue d.pins f.gpio = false)
      (hheeded : bit d.ignoredFaults f.bit = false) :
      Happens d (.faultIrq f) [.asserted f] { d with pendingFaults := raise d.pendingFaults f.bit }
  | nonePending (hquiet : ∀ f : FaultCondition, bit d.pendingFaults f.bit = false) :
      Happens d .faultTasklet [] d
  | faultsMore {f : FaultCondition} (hpending : bit d.pendingFaults f.bit = true)
      (hstate : d.status.state = .fault) : Happens d .faultTasklet [] d.processFaults
  | faults {f : FaultCondition} (hpending : bit d.pendingFaults f.bit = true)
      (hstate : d.status.state ≠ .fault) :
      Happens d .faultTasklet [.stopped .fault] (d.processFaults.driverStop true .fault)
  | panic : Happens d .panic [] d.cncPanicHandler
  | tick {fuel : Nat} {es : List Event} {c : Config Label} (hclock : d.epit.running = true)
      (hhost : d.buf.engine.host (.tick fuel) = some (es, c)) :
      Happens d (.tick fuel) [.played es] { d with
        buf := { d.buf with engine := c }
        pins := (writesTo d.buf.engine.m.mda es).foldl drivePins d.pins
        sdmaMailbox := (writesTo (d.buf.engine.m.word 21) es).getLastD d.sdmaMailbox }
  | line {p : PinId} {level : Bool} (hp : pinConfigs p = .gpiofIn) :
      Happens d (.line p level) []
        { d with pins := Function.update d.pins p { d.pins p with line := level } }

theorem happens {d : Driver} {event : Surrounding} {r : List Notice × Driver}
    (h : d.around event = some r) : Happens d event r.1 r.2 := by
  cases event with
  | stop =>
      cases h
      unfold cncStop
      cases hstate : d.status.state with
      | running => exact .stopDecelerates hstate
      | underrun => exact .stopSettles hstate
      | idle => exact .stopRests (by simp [hstate])
      | disabled => exact .stopRests (by simp [hstate])
      | fault => exact .stopRests (by simp [hstate])
  | halt =>
      cases h
      unfold cncHalt
      cases hstate : d.status.state with
      | running => exact .halts hstate
      | idle => exact .haltRests (by simp [hstate])
      | disabled => exact .haltRests (by simp [hstate])
      | fault => exact .haltRests (by simp [hstate])
      | underrun => exact .haltRests (by simp [hstate])
  | setLaserLatch value =>
      cases h
      unfold cncSetLaserLatch
      by_cases hvalue : value = 0
      · subst hvalue
        dsimp only
        rw [if_pos rfl]
        split
        · exact .unlocks ‹_›
        · exact .unlocksMoving ‹_›
      · simp only [ne_eq, hvalue, not_false_eq_true, decide_true]
        exact .locks hvalue
  | setStreaming streaming =>
      cases h
      exact .streaming
  | setStepFrequency freq =>
      cases h
      unfold cncSetStepFrequency
      split
      · exact .frequencyRefused
      · split
        · exact .frequencyRefused
        · exact .frequency ‹_› ‹_›
  | setRampRate hzPerS =>
      cases h
      unfold cncSetRampRate
      split
      · exact .rateRefused
      · split
        · exact .rateRefused
        · exact .rate ‹_› ‹_›
  | setIgnoredFaults mask =>
      cases h
      unfold setIgnoredFaults
      split
      · exact .maskRefused
      · exact .mask ‹_›
  | flock lock =>
      cases h
      exact .flock
  | free fetch =>
      cases h
      exact .free
  | rampTimer =>
      simp only [around] at h
      split at h <;> cases h
      unfold rampUpdateTaskletFn
      dsimp only
      cases hdec : d.status.decelerating with
      | true =>
          simp only [Bool.not_true, Bool.false_and, Bool.false_eq_true, if_false, if_true]
          split
          · exact .rampStops hdec ‹_›
          · exact .rampSlows hdec ‹_› rfl
      | false =>
          cases hacc : d.status.accelerating with
          | false => exact .rampEnds hdec hacc
          | true =>
              simp only [Bool.not_false, Bool.not_true, Bool.and_false, Bool.false_eq_true, if_false]
              split
              · exact .rampArrives hdec hacc ‹_›
              · exact .rampSpeeds hdec hacc rfl ‹_›
  | chargePumpTimer =>
      simp only [around] at h
      split at h <;> cases h
      unfold chargePumpTimerCb
      split
      · exact .pumpEnds ‹_›
      · exact .pumps (not_not.mp ‹_›)
  | sdmaInterrupt =>
      cases h
      unfold cncSdmaInterrupt
      by_cases hmail : d.sdmaMailbox ≠ 0
      · rw [if_pos hmail]
        split
        · split
          · exact .streamEnds hmail ‹_› ‹_›
          · exact .runEnds hmail ‹_› (eq_false_of_ne_true ‹_›)
        · exact .interruptLate hmail ‹_›
      · rw [if_neg hmail]
        split
        · dsimp only
          split
          · exact .waypointDecelerates (not_not.mp hmail) ‹_› ‹_›
          · exact .waypoint (not_not.mp hmail) ‹_› (eq_false_of_ne_true ‹_›)
        · exact .interruptUnarmed (not_not.mp hmail) (eq_false_of_ne_true ‹_›)
  | faultIrq f =>
      cases h
      unfold cncFaultIrqHandler
      split
      · exact .faultIgnored (.inl ‹_›)
      · split
        · exact .faultIgnored (.inr ‹_›)
        · exact .faultAsserted (eq_false_of_ne_true ‹_›) (eq_false_of_ne_true ‹_›)
  | faultTasklet =>
      cases h
      unfold faultTaskletFn
      by_cases hpending : ∃ f : FaultCondition, bit d.pendingFaults f.bit = true
      · obtain ⟨f, hf⟩ := hpending
        have hstate := d.processFaults_state
        unfold processFaults at hstate
        simp only [processFaults_halts hf, hstate, Bool.true_and, decide_eq_true_eq]
        split
        · exact .faults hf ‹_›
        · exact .faultsMore hf (not_not.mp ‹_›)
      · have hquiet (f : FaultCondition) : bit d.pendingFaults f.bit = false :=
          eq_false_of_ne_true fun hf => hpending ⟨f, hf⟩
        rw [processFaults_quiet hquiet]
        exact .nonePending hquiet
  | panic =>
      cases h
      exact .panic
  | tick fuel =>
      obtain ⟨hclock, es, c, hhost, rfl⟩ := tick_cases h
      exact .tick hclock hhost
  | line p level =>
      simp only [around] at h
      split at h <;> cases h
      exact .line ‹_›

end Driver

end Glowforge.Cnc
