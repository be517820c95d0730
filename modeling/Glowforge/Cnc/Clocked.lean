import Glowforge.Cnc.RampRun
import Glowforge.Cnc.Registers
import Glowforge.Cnc.RunScoped
import Glowforge.Sdma.TickBound

/-! A run is never left without what drives it: in RUNNING, and there alone, the timer can
tick the script, and every such tick comes to its end; the charge pump keeps its timer, and
a ramp keeps its own. -/
namespace Glowforge.Cnc
open Foundation Sdma

namespace Driver

/-- The timer runs with its event enabled, the channel has a priority, and the charge
pump's timer is queued. -/
structure Clocked (d : Driver) : Prop where
  epit : d.epit.running = true
  event : d.sdmaEvent = true
  priority : d.channelPriority ≠ 0
  pump : d.chargePumpTimer = true

def Paced (d d' : Driver) : Prop :=
  (d.status.state = .running → d.Clocked) → d'.status.state = .running → d'.Clocked

variable {d d' : Driver}

theorem paced_rests (h : d'.status.state ≠ .running) : Paced d d' := fun _ hrun => absurd hrun h

theorem paced_keep (hstate : d'.status.state = d.status.state) (hclocked : d.Clocked → d'.Clocked) :
    Paced d d' := by
  intro h hrun
  exact hclocked (h (hstate.symm.trans hrun))

theorem paced_driverStop (d : Driver) {d₀ : Driver} {inSoftirq : Bool} {nextState : CncState}
    (hnext : nextState ≠ .running) : Paced d₀ (d.driverStop inSoftirq nextState) :=
  paced_rests hnext

theorem paced_cncDecelStart (d : Driver) : Paced d d.cncDecelStart := by
  unfold cncDecelStart
  split
  · exact paced_keep rfl id
  · exact paced_keep rfl fun h => ⟨h.epit, h.event, h.priority, h.pump⟩

theorem Clocked.accelStart (h : d.Clocked) : d.cncAccelStart.Clocked := by
  unfold cncAccelStart
  split
  · exact h
  · exact ⟨h.epit, h.event, h.priority, h.pump⟩

theorem clocked_startTimer (d : Driver) (opts : CncRunOptions) : (d.startTimer opts).Clocked := by
  have hpriority : (6 : Word) ≠ 0 := by decide
  unfold startTimer
  split
  · exact Clocked.accelStart ⟨rfl, rfl, hpriority, rfl⟩
  · exact ⟨rfl, rfl, hpriority, rfl⟩

theorem paced_processFaults (d : Driver) : Paced d d.processFaults := by
  obtain ⟨pending, triggered, hframe⟩ := d.processFaults_frame
  rw [hframe]
  exact paced_keep rfl fun h => ⟨h.epit, h.event, h.priority, h.pump⟩

theorem around_paced {event : Surrounding} {r : List Notice × Driver}
    (h : d.around event = some r) (hpanic : event ≠ .panic) : Paced d r.2 := by
  have hcase := happens h
  generalize r.1 = o, r.2 = d' at hcase ⊢
  cases hcase with
  | stopSettles hstate => exact paced_rests (by simp)
  | stopDecelerates hstate => exact paced_cncDecelStart d
  | halts hstate => exact paced_driverStop _ (by decide)
  | rampStops hdec hslow => exact paced_driverStop _ (by decide)
  | pumpEnds hstate => exact paced_rests hstate
  | streamEnds hmail hstate hstream => exact paced_driverStop _ (by decide)
  | runEnds hmail hstate hstream => exact paced_driverStop _ (by decide)
  | waypointDecelerates hmail harmed hdecel =>
      intro hclocked
      refine paced_cncDecelStart _ ?_
      intro hrun
      have hbefore := hclocked hrun
      exact ⟨hbefore.epit, hbefore.event, hbefore.priority, hbefore.pump⟩
  | faultsMore hpending hstate => exact paced_processFaults d
  | faults hpending hstate => exact paced_driverStop _ (by decide)
  | panic => exact absurd rfl hpanic
  | _ => exact paced_keep rfl fun h => ⟨h.epit, h.event, h.priority, h.pump⟩

end Driver

namespace Call

open Driver (Paced paced_keep paced_rests paced_driverStop)

variable {i : Nat} {d d' : Driver} {p p' : Call} {o : List Notice} {move : Move}

private theorem paced_regulator (d : Driver) (ok : Bool) :
    Paced d (d.regulatorEnable ok) ∧ Paced d (d.regulatorDisable ok) := by
  cases ok
  · exact ⟨paced_keep rfl id, paced_keep rfl id⟩
  · exact ⟨paced_keep rfl fun h => ⟨h.epit, h.event, h.priority, h.pump⟩,
      paced_keep rfl fun h => ⟨h.epit, h.event, h.priority, h.pump⟩⟩

private theorem paced_powerOn (d : Driver) (ok : Bool) (here : PowerOn → Call) (after : Call)
    (pc : PowerOn) : Paced d (powerOn d ok here after pc).2.1 := by
  cases pc with
  | check => exact paced_keep rfl id
  | enable => exact (paced_regulator d ok).1
  | pins => exact paced_keep rfl fun h => ⟨h.epit, h.event, h.priority, h.pump⟩

private theorem paced_supplyOff {d : Driver} {ok : Bool} {here : SupplyOff → Call}
    {after : Driver → Outcome} (hafter : ∀ d, (after d).2.1 = d) (pc : SupplyOff) :
    Paced d (supplyOff d ok here after pc).2.1 := by
  cases pc with
  | check =>
      unfold supplyOff
      cases d.regulatorIsEnabled with
      | true => exact paced_keep rfl id
      | false =>
          change Paced d (after d).2.1
          rw [hafter]
          exact paced_keep rfl id
  | disable =>
      change Paced d (after (d.regulatorDisable ok)).2.1
      rw [hafter]
      exact (paced_regulator d ok).2

private theorem paced_enable (d : Driver) (ok : Bool) (pc : EnablePc) :
    Paced d (stepEnable d ok pc).2.1 := by
  cases pc with
  | check =>
      simp only [stepEnable]
      split
      · split <;> exact paced_keep rfl id
      · split
        · exact paced_keep rfl id
        · exact paced_keep rfl fun h => ⟨h.epit, h.event, h.priority, h.pump⟩
      · exact paced_keep rfl id
      · exact paced_keep rfl id
      · exact paced_keep rfl id
  | power pc => exact paced_powerOn d ok _ _ pc
  | commit =>
      simp only [stepEnable]
      split
      · exact paced_keep rfl id
      · split
        · exact paced_rests (by simp [ret])
        · exact paced_keep rfl id
  | supplyOff pc => exact paced_supplyOff (fun _ => rfl) pc
  | pinsOff => exact paced_keep rfl fun h => ⟨h.epit, h.event, h.priority, h.pump⟩

private theorem paced_disable (d : Driver) (ok : Bool) (pc : DisablePc) :
    Paced d (stepDisable d ok pc).2.1 := by
  have hstop : Paced d (d.driverStop true .disabled) := paced_driverStop d (by decide)
  cases pc with
  | check =>
      simp only [stepDisable]
      split
      · exact hstop
      · exact hstop
      · exact hstop
      · exact paced_keep rfl id
      · exact paced_keep rfl id
  | supplyOff pc => exact paced_supplyOff (fun _ => rfl) pc

private theorem paced_close (d : Driver) (pc : ClosePc) : Paced d (stepClose d pc).2.1 := by
  cases pc with
  | state =>
      simp only [stepClose]
      split <;> exact paced_keep rfl id
  | halt =>
      have hhalt : d.around .halt = some d.cncHalt := rfl
      exact Driver.around_paced hhalt (by simp)
  | relock =>
      have hlatch : d.around (.setLaserLatch 1) = some (d.cncSetLaserLatch 1) := rfl
      exact Driver.around_paced hlatch (by simp)

private theorem paced_zStep (d : Driver) (direction : Bool) (pc : ZStepPc) :
    Paced d (stepZ d direction pc).2.1 := by
  cases pc with
  | check =>
      simp only [stepZ]
      split <;> exact paced_keep rfl id
  | _ => exact paced_keep rfl fun h => ⟨h.epit, h.event, h.priority, h.pump⟩

theorem next_paced {r : Outcome} (h : next i d p move = some r) : Paced d r.2.1 := by
  by_cases hoff : p.offRing = true
  · cases p with
    | enable pc =>
        cases move <;> cases h
        exact paced_enable d _ pc
    | disable pc =>
        cases move <;> cases h
        exact paced_disable d _ pc
    | close pc =>
        cases move <;> cases h
        exact paced_close d pc
    | zStep direction pc =>
        cases move <;> cases h
        exact paced_zStep d direction pc
    | _ => cases hoff
  · obtain ⟨o, d', p'⟩ := r
    have hnext : NextStep i d p move o d' p' := nextStep_of_next h
    have hsame {e : Driver} (hstate : e.status.state = d.status.state)
        (hclock : (e.epit, e.sdmaEvent, e.channelPriority, e.chargePumpTimer) =
          (d.epit, d.sdmaEvent, d.channelPriority, d.chargePumpTimer)) : Paced d e := by
      simp only [Prod.mk.injEq] at hclock
      obtain ⟨hepit, hevent, hpriority, hpump⟩ := hclock
      refine paced_keep hstate fun h => ⟨?_, ?_, ?_, ?_⟩
      · rw [hepit]
        exact h.epit
      · rw [hevent]
        exact h.event
      · rw [hpriority]
        exact h.priority
      · rw [hpump]
        exact h.pump
    cases hnext with
    | begin hbegin => exact hsame rfl rfl
    | invalid e => exact hsame rfl rfl
    | @start opts pc ok o d' p' hstep =>
        cases hstep with
        | committed hclear hgen hstate => exact fun _ _ => Driver.clocked_startTimer _ opts
        | powerEnable => exact (paced_regulator d ok).1
        | supplyDisable => exact (paced_regulator d ok).2
        | _ => exact hsame rfl rfl
    | write hstep => cases hstep <;> exact hsame rfl rfl
    | copy hstep => cases hstep <;> exact hsame rfl rfl
    | clear hstep => cases hstep <;> exact hsame rfl rfl
    | offRing hp hp' hsupply => exact absurd hp hoff

end Call

/-! The direction the script finds. -/

namespace Threads

/-- What a tick needs besides its clock: a shared ring, and a direction the script knows. -/
structure Playable (k : Nat) (phys : Word) (T : Threads) : Prop extends Ringed k phys T where
  aimed : T.shared.buf.player.dir = 1 ∨ T.shared.buf.player.dir = 0xFFFFFFFF ∨
    T.shared.buf.player.dir = 0

theorem playable_probe (ringMb : Nat) (args : ScriptArgs) (lines : PinId → Bool) (railOn : Bool) :
    ∃ k, Playable k args.fifoStartPhys (probe ringMb args lines railOn) := by
  obtain ⟨k, h⟩ := ringed_probe ringMb args lines railOn
  refine ⟨k, h, .inl ?_⟩
  change (loadSdmaScript _).m.word 30 = 1
  simp [loadSdmaScript, Program.goto, Machine.word, Machine.setWord]

theorem dir_next {i : Nat} {d d' : Driver} {p p' : Call} {o : List Notice} {move : Move}
    (h : Call.NextStep i d p move o d' p') :
    d'.buf.player.dir = d.buf.player.dir ∨
      d'.buf.player.dir = 1 ∨ d'.buf.player.dir = 0xFFFFFFFF := by
  by_cases hloads : (30 : Word) ∈ p.loads
  · cases h with
    | @start opts pc ok o d' p' hstep =>
        cases hstep with
        | regs =>
            right
            have hdir : (d.buf.loadRegs opts).player.dir = if opts.backward then 0xFFFFFFFF else 1 := by
              simp [Pulsebuf.loadRegs, Pulsebuf.player, Machine.player, Config.withMachine,
                Machine.word, Machine.setWord]
            change (d.buf.loadRegs opts).player.dir = 1 ∨ (d.buf.loadRegs opts).player.dir = 0xFFFFFFFF
            rw [hdir]
            cases opts.backward
            · exact .inl rfl
            · exact .inr rfl
        | regsFailed => exact .inl rfl
        | _ => simp [Call.loads] at hloads
    | write hstep => cases hstep <;> simp [Call.loads] at hloads
    | copy hstep => simp [Call.loads] at hloads
    | @clear data position pc ok o d' p' hstep =>
        cases hstep <;> cases data <;> cases position <;> simp [Call.loads, clearWords] at hloads
    | begin hbegin => simp [Call.loads] at hloads
    | invalid e => simp [Call.loads] at hloads
    | offRing hp hp' hsupply => cases p <;> simp [Call.loads, Call.offRing] at hloads hp
  · exact .inl (h.rewritten.word hloads)

theorem Playable.step {k : Nat} {phys : Word} {T : Threads} {a : Action}
    {r : List Notice × Threads} (h : Playable k phys T) (hstep : T.step a = some r) :
    Playable k phys r.2 := by
  refine ⟨h.toRinged.step hstep, ?_⟩
  cases a with
  | thread i move =>
      obtain ⟨d, p, hnext, hr⟩ := Pool.step_thread hstep
      rw [hr]
      rcases dir_next (Call.nextStep_of_next hnext) with hsame | hset | hset
      · exact hsame ▸ h.aimed
      · exact .inl hset
      · exact .inr (.inl hset)
  | surround event =>
      obtain ⟨d, haround, hr⟩ := Pool.step_surround hstep
      rw [hr]
      by_cases htick : ∃ fuel, event = .tick fuel
      · obtain ⟨fuel, rfl⟩ := htick
        obtain ⟨-, es, c, hhost, hd⟩ := Driver.tick_cases haround
        have hplayer : d.buf.player = c.m.player := congrArg (fun r => r.2.buf.player) hd
        obtain ⟨ph, hw⟩ := h.shares.waits
        obtain ⟨n, ph', hticked, -⟩ := tick_of_exec hw hhost
        have hdir : c.m.player.dir = T.shared.buf.player.dir ∨ c.m.player.dir = 0 := hticked.walked.dir
        change d.buf.player.dir = 1 ∨ d.buf.player.dir = 0xFFFFFFFF ∨ d.buf.player.dir = 0
        rw [hplayer]
        rcases hdir with hsame | hzero
        · rw [hsame]
          exact h.aimed
        · exact .inr (.inr hzero)
      · have hsame : d.buf.engine = T.shared.buf.engine :=
          Driver.around_engine haround fun fuel heq => htick ⟨fuel, heq⟩
        change d.buf.engine.m.player.dir = 1 ∨ d.buf.engine.m.player.dir = 0xFFFFFFFF ∨
          d.buf.engine.m.player.dir = 0
        rw [hsame]
        exact h.aimed

theorem Playable.ticks {k : Nat} {phys : Word} {T : Threads} (h : Playable k phys T) :
    ∃ fuel r, T.shared.buf.engine.host (.tick fuel) = some r := by
  obtain ⟨ph, hw⟩ := h.shares.waits
  have hmask : IsMask k T.shared.buf.player.mask := by
    rw [h.shares.mask]
    exact h.shares.ring
  have htick : ∃ n es ph' p', Player.Tick n ph T.shared.buf.player es ph' p' := by
    rcases h.aimed with hforward | hbackward | hparked
    · obtain ⟨n, es, ph', p', htick, -⟩ := Player.tick_exists hw hmask (.inl hforward)
      exact ⟨n, es, ph', p', htick⟩
    · obtain ⟨n, es, ph', p', htick, -⟩ := Player.tick_exists hw hmask (.inr hbackward)
      exact ⟨n, es, ph', p', htick⟩
    · by_cases hready : ph = .ready
      · subst hready
        exact ⟨0, _, _, _, .play (.park (.inl hparked))⟩
      · exact ⟨0, _, _, _, .restart hready⟩
  obtain ⟨n, es, ph', p', htick⟩ := htick
  obtain ⟨c, hexec, -⟩ := exec_of_tick htick hw rfl
  exact ⟨153 * n + 158, (es, c), hexec⟩

/-- The driver at work without a panic: it can tick whenever it runs. -/
structure Clockwork (k : Nat) (phys : Word) (T : Threads) : Prop extends Playable k phys T where
  clocked : T.shared.status.state = .running → T.shared.Clocked
  lawful : T.shared.ramp.Lawful
  runScoped : T.shared.control.RunScoped

theorem clockwork_probe (ringMb : Nat) (args : ScriptArgs) (lines : PinId → Bool) (railOn : Bool) :
    ∃ k, Clockwork k args.fifoStartPhys (probe ringMb args lines railOn) := by
  obtain ⟨k, h⟩ := playable_probe ringMb args lines railOn
  exact ⟨k, h, fun hrun => absurd hrun (probe_rests ringMb args lines railOn),
    lawful_probe ringMb args lines railOn, runScoped_probe ringMb args lines railOn⟩

theorem Clockwork.step {k : Nat} {phys : Word} {T : Threads} {a : Action}
    {r : List Notice × Threads} (h : Clockwork k phys T) (hpanic : a ≠ .surround .panic)
    (hstep : T.step a = some r) : Clockwork k phys r.2 := by
  refine ⟨h.toPlayable.step hstep, ?_, lawful_step h.lawful hstep, h.runScoped.step (step_simulated hstep)⟩
  cases a with
  | thread i move =>
      obtain ⟨d, p, hnext, hr⟩ := Pool.step_thread hstep
      rw [hr]
      exact Call.next_paced hnext h.clocked
  | surround event =>
      obtain ⟨d, haround, hr⟩ := Pool.step_surround hstep
      rw [hr]
      exact Driver.around_paced haround (fun heq => hpanic (congrArg _ heq)) h.clocked

theorem step_of_around {T : Threads} {event : Surrounding} {r : List Notice × Driver}
    (h : T.shared.around event = some r) : ∃ q, T.step (.surround event) = some q :=
  ⟨_, Option.map_eq_some_iff.mpr ⟨r, h, rfl⟩⟩

theorem Clockwork.ticks {k : Nat} {phys : Word} {T : Threads} (h : Clockwork k phys T)
    (hrun : T.shared.status.state = .running) :
    ∃ fuel r, T.step (.surround (.tick fuel)) = some r := by
  have hclocked := h.clocked hrun
  obtain ⟨fuel, r, hhost⟩ := h.toPlayable.ticks
  have hon : (T.shared.epit.running && T.shared.sdmaEvent &&
      decide (T.shared.channelPriority ≠ 0)) = true := by
    rw [hclocked.epit, hclocked.event, decide_eq_true hclocked.priority]
    rfl
  have haround : ∃ q, T.shared.around (.tick fuel) = some q :=
    ⟨_, (if_pos hon).trans (Option.map_eq_some_iff.mpr ⟨r, hhost, rfl⟩)⟩
  obtain ⟨q, haround⟩ := haround
  exact ⟨fuel, step_of_around haround⟩

/-- In every state that threads and callbacks reach from probe with no panic: the timer can
tick the script exactly in RUNNING, the charge pump's timer can then fire, and so can the
ramp's while a ramp lasts. -/
theorem ticks_exactly_while_running {ringMb : Nat} {args : ScriptArgs} {lines : PinId → Bool}
    {railOn : Bool} {as : List Action} {out : List Notice} {T : Threads}
    (h : System.execute step as (probe ringMb args lines railOn) = some (out, T))
    (hpanic : ∀ a ∈ as, a ≠ .surround .panic) :
    (T.shared.status.state = .running ↔
      ∃ fuel r, T.step (.surround (.tick fuel)) = some r) ∧
    (T.shared.status.state = .running →
      (∃ r, T.step (.surround .chargePumpTimer) = some r) ∧
      (T.shared.status.accelerating = true ∨ T.shared.status.decelerating = true →
        ∃ r, T.step (.surround .rampTimer) = some r)) := by
  obtain ⟨k, hinit⟩ := clockwork_probe ringMb args lines railOn
  have hwork : Clockwork k args.fifoStartPhys T := by
    refine (System.execute_guarded (P := fun _ => True) ?_ hinit
      (System.along_of_forall hpanic _) h).1
    intro T a r hT ha hstep
    exact ⟨hT.step ha hstep, fun _ _ => trivial⟩
  refine ⟨⟨?_, ?_⟩, ?_⟩
  · exact hwork.ticks
  · rintro ⟨fuel, r, hstep⟩
    obtain ⟨d, haround, -⟩ := Pool.step_surround hstep
    exact Control.RunScoped.running_of_tick hwork.runScoped haround
  · intro hrun
    have hpump := (hwork.clocked hrun).pump
    refine ⟨step_of_around (if_pos hpump), ?_⟩
    intro hramping
    have hqueued : T.shared.rampTimer = true := hwork.lawful.queued hramping
    exact step_of_around (if_pos hqueued)

/-- A resume that is halted and begun anew: its timer ticks. -/
theorem ticks_exactly_while_running_resumed :
    ∃ T : Threads, ∃ fuel r, T.shared.status.accelerating = true ∧
      T.step (.surround (.tick fuel)) = some r := by
  have hrun : ((System.execute step (callWrite 0 [0x10] ++ call 0 (.start (.resume 5)) 15 ++
      [.surround .rampTimer, .surround .halt] ++ call 1 (.start (.resume 5)) 14)
      (probe 1 (.over fun _ => 0) (fun _ => true) false)).map
        fun r => (r.2.shared.status.state, r.2.shared.status.accelerating)) =
      some (.running, true) := by decide +kernel
  obtain ⟨⟨out, T⟩, hexec, hseen⟩ := Option.map_eq_some_iff.mp hrun
  injection hseen with hstate haccelerating
  have hpanic : ∀ a ∈ callWrite 0 [0x10] ++ call 0 (.start (.resume 5)) 15 ++
      [.surround .rampTimer, .surround .halt] ++ call 1 (.start (.resume 5)) 14,
      a ≠ .surround .panic := by
    rintro a ha rfl
    simp [callWrite, call] at ha
  obtain ⟨fuel, r, hstep⟩ := (ticks_exactly_while_running hexec hpanic).1.mp hstate
  exact ⟨T, fuel, r, haccelerating, hstep⟩

end Threads

end Glowforge.Cnc
