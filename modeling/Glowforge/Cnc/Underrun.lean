import Glowforge.Cnc.RunTail
import Glowforge.Cnc.Waypoint

/-! Underruns. One signal tells the driver that the script has come to its tail, and with
streaming declared each such signal counts as an underrun: also that of a backward run at
its dead stop, and those of a tail that does not cover what is in the ring. -/
namespace Glowforge.Cnc
open Foundation Sdma Player

namespace Driver

def head (d : Driver) : Word := d.buf.engine.m.word 28

/-- A forward run whose script knows of every byte in the ring, which is not full. -/
def Covered (d : Driver) : Prop :=
  d.status.runningBackward = false ∧ d.tail = d.buf.fifo.inIndex ∧
    (d.buf.fifo.inIndex - d.head).toNat < d.buf.fifo.size.toNat

instance (d : Driver) : Decidable d.Covered := inferInstanceAs (Decidable (_ ∧ _ ∧ _))

/-- The callback takes an end of data for an underrun. -/
def endsStream (d : Driver) : Bool :=
  d.sdmaMailbox != 0 && decide (d.status.state = .running) && d.status.streaming

structure Unalarmed (d d' : Driver) : Prop where
  count : d'.underrunCount = d.underrunCount
  state : d'.status.state = .underrun → d.status.state = .underrun

variable {d d' d'' : Driver}

theorem Unalarmed.refl (d : Driver) : Unalarmed d d := ⟨rfl, id⟩

theorem Unalarmed.trans (h : Unalarmed d d') (h' : Unalarmed d' d'') : Unalarmed d d'' :=
  ⟨h'.count.trans h.count, fun hstate => h.state (h'.state hstate)⟩

theorem unalarmed_driverStop (d : Driver) (inSoftirq : Bool) {nextState : CncState}
    (hnext : nextState ≠ .underrun) : Unalarmed d (d.driverStop inSoftirq nextState) := by
  unfold driverStop
  dsimp only
  split <;> exact ⟨rfl, fun hstate => absurd hstate hnext⟩

theorem unalarmed_cncDecelStart (d : Driver) : Unalarmed d d.cncDecelStart := by
  unfold cncDecelStart
  split <;> exact ⟨rfl, id⟩

theorem unalarmed_commit (d : Driver) (opts : CncRunOptions) : Unalarmed d (d.commit opts) := by
  have hdrive (d : Driver) : d.restoreDrive.underrunCount = d.underrunCount := by
    unfold restoreDrive
    split <;> rfl
  have htimer (d : Driver) : (d.startTimer opts).underrunCount = d.underrunCount := by
    unfold startTimer cncAccelStart
    dsimp only
    split
    · split <;> rfl
    · rfl
  have hset (d : Driver) (p : PinId) (value : Bool) :
      (d.setPin p value).underrunCount = d.underrunCount := rfl
  have hpulses (d : Driver) :
      d.beamDetectLatchReset.toggleChargePump.underrunCount = d.underrunCount := by
    unfold toggleChargePump beamDetectLatchReset
    rw [hset, hset, hset, hset, hset]
  constructor
  · rw [commit, htimer, hpulses, hdrive]
    rfl
  · have hcontrol := congrArg (fun c => c.status.state) (control_commit d opts)
    have hrun : (d.commit opts).status.state = .running := by
      refine Eq.trans hcontrol ?_
      have haccelerate (c : Control) : c.accelerate.status.state = c.status.state := by
        unfold Control.accelerate
        split <;> rfl
      unfold Control.commit
      cases opts.accelerate with
      | true => exact haccelerate _
      | false => rfl
    intro hstate
    rw [hrun] at hstate
    cases hstate

theorem unalarmed_processFaults (d : Driver) : Unalarmed d d.processFaults := by
  obtain ⟨pending, triggered, hframe⟩ := d.processFaults_frame
  rw [hframe]
  exact ⟨rfl, id⟩

theorem around_unalarmed {event : Surrounding} {r : List Notice × Driver}
    (h : d.around event = some r) : Unalarmed d r.2 ∨ event = .sdmaInterrupt ∧
      d.endsStream = true := by
  have hcase := happens h
  generalize r.1 = o, r.2 = d' at hcase ⊢
  cases hcase with
  | stopSettles hstate => exact .inl ⟨rfl, fun hunder => nomatch hunder⟩
  | stopDecelerates hstate => exact .inl (unalarmed_cncDecelStart d)
  | halts hstate => exact .inl (unalarmed_driverStop d true (by decide))
  | rampStops hdec hslow =>
      have htimer : Unalarmed d { d with rampTimer := false } := ⟨rfl, id⟩
      exact .inl (htimer.trans (unalarmed_driverStop _ true (by decide)))
  | streamEnds hmail hstate hstream =>
      refine .inr ⟨rfl, ?_⟩
      unfold endsStream
      rw [hstream, decide_eq_true hstate, bne_iff_ne.mpr hmail]
      rfl
  | runEnds hmail hstate hstream => exact .inl (unalarmed_driverStop d true (by decide))
  | waypointDecelerates hmail harmed hdecel =>
      have hdecel (d : Driver) := unalarmed_cncDecelStart d
      exact .inl ⟨(hdecel _).count, (hdecel _).state⟩
  | faultsMore hpending hstate => exact .inl (unalarmed_processFaults d)
  | faults hpending hstate =>
      exact .inl ((unalarmed_processFaults d).trans (unalarmed_driverStop _ true (by decide)))
  | _ => exact .inl ⟨rfl, id⟩

end Driver

namespace Call

variable {i : Nat} {d d' : Driver} {p p' : Call} {o : List Notice} {move : Move}

private theorem unalarmed_regulatorEnable (d : Driver) (ok : Bool) :
    Driver.Unalarmed d (d.regulatorEnable ok) := by
  cases ok <;> exact ⟨rfl, id⟩

private theorem unalarmed_regulatorDisable (d : Driver) (ok : Bool) :
    Driver.Unalarmed d (d.regulatorDisable ok) := by
  cases ok <;> exact ⟨rfl, id⟩

private theorem unalarmed_powerOn (d : Driver) (ok : Bool) (here : PowerOn → Call) (after : Call)
    (pc : PowerOn) : Driver.Unalarmed d (powerOn d ok here after pc).2.1 := by
  cases pc with
  | check => exact .refl d
  | enable => exact unalarmed_regulatorEnable d ok
  | pins => exact ⟨rfl, id⟩

private theorem unalarmed_supplyOff (d : Driver) (ok : Bool) (here : SupplyOff → Call)
    {after : Driver → Outcome} (hafter : ∀ d, (after d).2.1 = d) (pc : SupplyOff) :
    Driver.Unalarmed d (supplyOff d ok here after pc).2.1 := by
  cases pc with
  | check =>
      unfold supplyOff
      cases d.regulatorIsEnabled with
      | true => exact .refl d
      | false =>
          have hsame : (after d).2.1 = d := hafter d
          exact ⟨congrArg Driver.underrunCount hsame, fun hstate =>
            (congrArg (fun d => d.status.state) hsame).symm.trans hstate⟩
  | disable =>
      unfold supplyOff
      rw [hafter]
      exact unalarmed_regulatorDisable d ok

private theorem unalarmed_enable (d : Driver) (ok : Bool) (pc : EnablePc) :
    Driver.Unalarmed d (stepEnable d ok pc).2.1 := by
  cases pc with
  | check =>
      simp only [stepEnable]
      split
      · split <;> exact ⟨rfl, id⟩
      · split <;> exact ⟨rfl, id⟩
      · exact .refl d
      · exact .refl d
      · exact .refl d
  | power pc => exact unalarmed_powerOn d ok _ _ pc
  | commit =>
      simp only [stepEnable]
      split
      · exact .refl d
      · split
        · exact ⟨rfl, by rintro ⟨⟩⟩
        · exact .refl d
  | supplyOff pc => exact unalarmed_supplyOff d ok _ (fun _ => rfl) pc
  | pinsOff => exact ⟨rfl, id⟩

private theorem unalarmed_disable (d : Driver) (ok : Bool) (pc : DisablePc) :
    Driver.Unalarmed d (stepDisable d ok pc).2.1 := by
  have hstop := Driver.unalarmed_driverStop d true (by decide : CncState.disabled ≠ .underrun)
  cases pc with
  | check =>
      simp only [stepDisable]
      split
      · exact hstop
      · exact hstop
      · exact hstop
      · exact .refl d
      · exact .refl d
  | supplyOff pc => exact unalarmed_supplyOff d ok _ (fun _ => rfl) pc

private theorem unalarmed_close (d : Driver) (pc : ClosePc) :
    Driver.Unalarmed d (stepClose d pc).2.1 := by
  cases pc with
  | state =>
      simp only [stepClose]
      split <;> exact .refl d
  | halt =>
      have hhalt : d.around .halt = some d.cncHalt := rfl
      exact (Driver.around_unalarmed hhalt).resolve_right (by rintro ⟨⟨⟩, -⟩)
  | relock =>
      have hlatch : d.around (.setLaserLatch 1) = some (d.cncSetLaserLatch 1) := rfl
      exact (Driver.around_unalarmed hlatch).resolve_right (by rintro ⟨⟨⟩, -⟩)

private theorem unalarmed_zStep (d : Driver) (direction : Bool) (pc : ZStepPc) :
    Driver.Unalarmed d (stepZ d direction pc).2.1 := by
  cases pc with
  | check =>
      simp only [stepZ]
      split <;> exact .refl d
  | _ => exact ⟨rfl, id⟩

theorem next_unalarmed {r : Outcome} (h : next i d p move = some r) :
    Driver.Unalarmed d r.2.1 := by
  by_cases hoff : p.offRing = true
  · cases p with
    | enable pc =>
        cases move <;> cases h
        exact unalarmed_enable d _ pc
    | disable pc =>
        cases move <;> cases h
        exact unalarmed_disable d _ pc
    | close pc =>
        cases move <;> cases h
        exact unalarmed_close d pc
    | zStep direction pc =>
        cases move <;> cases h
        exact unalarmed_zStep d direction pc
    | _ => cases hoff
  · obtain ⟨o, d', p'⟩ := r
    have hnext : NextStep i d p move o d' p' := nextStep_of_next h
    cases hnext with
    | begin hbegin => exact .refl d
    | invalid e => exact .refl d
    | @start opts pc ok o d' p' hstep =>
        cases hstep with
        | committed hclear hgen hstate => exact Driver.unalarmed_commit d opts
        | powerEnable => exact unalarmed_regulatorEnable d ok
        | supplyDisable => exact unalarmed_regulatorDisable d ok
        | _ => exact ⟨rfl, id⟩
    | write hstep => cases hstep <;> exact ⟨rfl, id⟩
    | copy hstep => cases hstep <;> exact ⟨rfl, id⟩
    | clear hstep => cases hstep <;> exact ⟨rfl, id⟩
    | offRing hp hp' hsupply => exact absurd hp hoff

end Call

theorem Threads.unalarmed_of_step {T : Threads} {a : Threads.Action} {r : List Notice × Threads}
    (h : T.step a = some r) : Driver.Unalarmed T.shared r.2.shared ∨
      a = .surround .sdmaInterrupt ∧ T.shared.endsStream = true := by
  cases a with
  | thread i move =>
      obtain ⟨d, p, hnext, hr⟩ := Pool.step_thread h
      rw [hr]
      exact .inl (Call.next_unalarmed hnext)
  | surround event =>
      obtain ⟨d, haround, hr⟩ := Pool.step_surround h
      rw [hr]
      rcases Driver.around_unalarmed haround with hquiet | ⟨rfl, hends⟩
      · exact .inl hquiet
      · exact .inr ⟨rfl, hends⟩

namespace Call

variable {i : Nat} {d d' : Driver} {p p' : Call} {o : List Notice} {move : Move}

theorem loads_head (h : 28 ∈ p.loads) : ∃ position, p = .clear true position .clear := by
  cases p with
  | start opts pc =>
      cases pc with
      | regs gen => exact absurd h (by decide : (28 : Word) ∉ [29, 30, 31])
      | inhibit gen => exact absurd h (by decide : (28 : Word) ∉ [20])
      | _ => exact absurd h List.not_mem_nil
  | write data pc =>
      cases pc with
      | publish => exact absurd h (by decide : (28 : Word) ∉ [29])
      | _ => exact absurd h List.not_mem_nil
  | clear data position pc =>
      cases pc with
      | clear =>
          cases data with
          | true => exact ⟨position, rfl⟩
          | false => cases position <;> exact absurd h (by decide)
      | _ => exact absurd h List.not_mem_nil
  | _ => exact absurd h List.not_mem_nil

theorem NextStep.clears {data position : Bool}
    (h : NextStep i d p move o d' (.clear data position .clear)) :
    d'.status.state = d.status.state ∧ d.status.state ≠ .running := by
  cases h with
  | begin hbegin =>
      cases hbegin with
      | offRing hoff => cases hoff
  | start hstep => cases hstep
  | write hstep => cases hstep
  | copy hstep => cases hstep
  | clear hstep =>
      cases hstep with
      | checked hidle => exact ⟨rfl, hidle⟩
  | offRing hp hp' hsupply =>
      rcases hp' with hp' | hp'
      · cases hp'
      · cases hp'

end Call

namespace Threads

/-- No run is in flight while a clear loads the script. -/
def ClearsAtRest (T : Threads) : Prop :=
  ∀ i data position, T.threads i = .clear data position .clear →
    T.shared.status.state ≠ .running

theorem ClearsAtRest.step {T : Threads} {a : Action} {r : List Notice × Threads}
    (h : ClearsAtRest T) (hlocked : Locked T) (hstep : T.step a = some r) : ClearsAtRest r.2 := by
  intro j data position hj hrun
  cases a with
  | surround event =>
      obtain ⟨d, haround, hr⟩ := Pool.step_surround hstep
      rw [hr] at hj hrun
      exact h j data position hj (Driver.running_of_around haround hrun).1
  | thread i move =>
      obtain ⟨d, p, hnext, hr⟩ := Pool.step_thread hstep
      have hnextStep : Call.NextStep i T.shared (T.threads i) move r.1 d p :=
        Call.nextStep_of_next hnext
      rw [hr] at hj hrun
      by_cases hji : j = i
      · subst hji
        have hp : p = .clear data position .clear := (Function.update_self _ _ _).symm.trans hj
        rw [hp] at hnextStep
        obtain ⟨hsame, hrest⟩ := hnextStep.clears
        exact hrest (hsame.symm.trans hrun)
      · have hbefore : T.threads j = .clear data position .clear :=
          (Function.update_of_ne hji _ _).symm.trans hj
        -- the lock keeps the commit of another thread away
        obtain ⟨opts, gen, was, hi, -⟩ :=
          commits_of_running hnext hrun (h j data position hbefore)
        exact hji (Pool.Owned.exclusive hlocked (by rw [hbefore]; rfl) (by rw [hi]; rfl))

end Threads

/-- How the script came to its end of data: whether the tick that parked it began covered,
and where the ring ended then. -/
structure EndOfData where
  covered : Bool
  inIndex : Word
  deriving DecidableEq, Repr

abbrev Drain := Logged Threads (Option EndOfData)

namespace Drain

def probe (ringMb : Nat) (args : ScriptArgs) (lines : PinId → Bool) (railOn : Bool) : Drain :=
  ⟨.probe ringMb args lines railOn, none⟩

def ended (e : Option EndOfData) (d d' : Driver) : Option EndOfData :=
  if d.direction ≠ 0 ∧ d'.direction = 0 then some ⟨decide d.Covered, d.buf.fifo.inIndex⟩ else e

def enter (e : Option EndOfData) (T : Threads) (a : Threads.Action) (r : List Notice × Threads) :
    Option EndOfData :=
  match a with
  | .surround (.tick _) => ended e T.shared r.2.shared
  | _ => if Line.commits r.1 then none else e

abbrev step : Drain → Threads.Action → Option (List Notice × Drain) :=
  Logged.step Threads.step enter

/-- Starts are made one at a time, and an end of data that is signalled with streaming
declared is one whose tick began covered. -/
structure Genuine (D : Drain) (a : Threads.Action) : Prop where
  alone : Threads.Alone D.state a
  covered : a = .surround .sdmaInterrupt → D.state.shared.endsStream = true →
    ∀ e, D.ledger = some e → e.covered = true

/-- While the driver runs: the mailbox tells whether the script has parked, and a covered
run has then played to where the ring ended. -/
structure Running (e : Option EndOfData) (d : Driver) : Prop where
  mailbox : d.sdmaMailbox ≠ 0 → d.direction = 0
  parked : d.direction = 0 ↔ ∃ u, e = some u
  forward : d.status.runningBackward = false → d.direction = 1 ∨ d.direction = 0
  covered : ∀ u, e = some u → u.covered = true →
    d.status.runningBackward = false ∧ d.head = u.inIndex

structure Watched (k : Nat) (phys : Word) (D : Drain) : Prop where
  staged : Threads.Staged D.state
  locked : Threads.Locked D.state
  cleared : Threads.ClearsAtRest D.state
  ring : Threads.Ringed k phys D.state
  aimed : ∀ i opts pc, D.state.threads i = .start opts pc → pc.loaded = true →
    opts.backward = false → D.state.shared.direction = 1
  running : D.state.shared.status.state = .running → Running D.ledger D.state.shared

theorem Running.frame {e : Option EndOfData} {d d' : Driver} (h : Running e d)
    (hsame : d'.direction = d.direction ∧ d'.sdmaMailbox = d.sdmaMailbox)
    (hback : d'.status.runningBackward = d.status.runningBackward)
    (hhead : d.direction = 0 → d'.head = d.head) : Running e d' := by
  obtain ⟨hdirection, hmailbox⟩ := hsame
  constructor
  · rw [hdirection, hmailbox]
    exact h.mailbox
  · rw [hdirection]
    exact h.parked
  · rw [hdirection, hback]
    exact h.forward
  · intro u hu hcovered
    rw [hback, hhead (h.parked.mpr ⟨u, hu⟩)]
    exact h.covered u hu hcovered

theorem dry_of_covered {k : Nat} {phys : Word} {T : Threads} (h : Threads.Ringed k phys T)
    (hphys : phys ≠ 0) (hran : T.shared.direction ≠ 0)
    (hforward : T.shared.status.runningBackward = false →
      T.shared.direction = 1 ∨ T.shared.direction = 0)
    (hcovered : T.shared.Covered) {n : Nat} {ph ph' : Phase} {es : List Event} {p : Player}
    (hticked : Tick n ph T.shared.buf.player es ph' p) (hparked : p.dir = 0) :
    p.head = T.shared.buf.fifo.inIndex := by
  obtain ⟨hback, htail, hround⟩ := hcovered
  have hdir : T.shared.buf.player.dir = 1 := (hforward hback).resolve_right hran
  have hbase : T.shared.buf.player.base ≠ 0 := by
    rw [h.shares.base, h.phys]
    exact hphys
  have hmask : IsMask k T.shared.buf.player.mask := by
    rw [h.shares.mask]
    exact h.shares.ring
  have htail' : T.shared.buf.player.tail = T.shared.buf.fifo.inIndex := htail
  rw [← htail']
  apply hticked.head_eq_tail hmask hbase hdir hparked
  rw [h.shares.size_toNat] at hround
  rw [htail']
  exact hround

theorem Running.tick {k : Nat} {phys : Word} {e : Option EndOfData} {T : Threads}
    (h : Running e T.shared) (hring : Threads.Ringed k phys T) (hphys : phys ≠ 0)
    (hapart : Apart T.shared.buf.player) {fuel : Nat} {o : List Notice} {d : Driver}
    (htick : T.shared.tick fuel = some (o, d)) : Running (ended e T.shared d) d := by
  obtain ⟨-, es, c, hhost, hr⟩ := Driver.tick_cases htick
  obtain ⟨ph, hw⟩ := hring.shares.waits
  obtain ⟨n, ph', hticked, -⟩ := tick_of_exec hw hhost
  injection hr with ho hd
  have hdirection : d.direction = c.m.player.dir := by
    rw [hd]
    rfl
  have hhead : d.head = c.m.player.head := by
    rw [hd]
    rfl
  have hmailbox : d.sdmaMailbox = mail T.shared.buf.player.mailbox T.shared.sdmaMailbox es := by
    rw [hd]
    rfl
  have hback : d.status.runningBackward = T.shared.status.runningBackward := by rw [hd]
  cases tick_signals hticked hapart T.shared.sdmaMailbox with
  | onward hdir hmail hnotify hzero =>
      have hsame : d.direction = T.shared.direction := hdirection.trans hdir
      have hgoes : ended e T.shared d = e := by
        unfold ended
        rw [if_neg]
        rintro ⟨hran, hparked⟩
        exact hran (hsame.symm.trans hparked)
      rw [hgoes]
      apply h.frame ⟨hsame, hmailbox.trans hmail⟩ hback
      intro hzero
      have hstill : T.shared.buf.engine.m.player.dir = 0 := hzero
      rw [hhead, hticked.walked.head, hstill, nsmul_zero, add_zero]
      rfl
  | parked hran hdir hmail =>
      have hzero : d.direction = 0 := hdirection.trans hdir
      have hparks : ended e T.shared d =
          some ⟨decide T.shared.Covered, T.shared.buf.fifo.inIndex⟩ := by
        unfold ended
        rw [if_pos ⟨hran, hzero⟩]
      rw [hparks]
      constructor
      · exact fun _ => hzero
      · exact iff_of_true hzero ⟨_, rfl⟩
      · exact fun _ => .inr hzero
      · rintro u hu hcovered
        injection hu with hu
        subst hu
        have hbegan : T.shared.Covered := of_decide_eq_true hcovered
        refine ⟨hback.trans hbegan.1, ?_⟩
        rw [hhead]
        exact dry_of_covered hring hphys hran h.forward hbegan hticked hdir

theorem Running.committed {d : Driver} {opts : CncRunOptions} {gen : Word} {was : Bool}
    (h : (StartPc.commit gen was).Prepared d) (haimed : opts.backward = false → d.direction = 1) :
    Running none (d.commit opts) := by
  have haside := Driver.aside_commit d opts
  have hdirection : (d.commit opts).direction = d.direction :=
    congrArg (fun a => a.buf.engine.m.word 30) haside
  have hmailbox : (d.commit opts).sdmaMailbox = 0 :=
    (congrArg Aside.sdmaMailbox haside).trans (h.mailbox rfl)
  constructor
  · exact fun hmail => absurd hmailbox hmail
  · rw [hdirection]
    exact iff_of_false (h.direction rfl) fun ⟨u, hu⟩ => nomatch hu
  · rw [Driver.runningBackward_commit, hdirection]
    exact fun hforward => .inl (haimed hforward)
  · exact fun u hu => nomatch hu

theorem direction_loadRegs_forward (b : Pulsebuf) {opts : CncRunOptions}
    (h : opts.backward = false) : (b.loadRegs opts).engine.m.word 30 = 1 := by
  simp [Pulsebuf.loadRegs, Config.withMachine, Machine.word, Machine.setWord, h]

theorem aimed_next {k : Nat} {phys : Word} {D : Drain} (h : Watched k phys D) {i : Nat}
    {move : Move} {o : List Notice} {d : Driver} {p : Call}
    (hnext : Call.NextStep i D.state.shared (D.state.threads i) move o d p) {j : Nat}
    {opts : CncRunOptions} {pc : StartPc}
    (hj : Function.update D.state.threads i p j = .start opts pc) (hloaded : pc.loaded = true)
    (hforward : opts.backward = false) : d.direction = 1 := by
  by_cases hji : j = i
  · subst hji
    have hp : p = .start opts pc := (Function.update_self _ _ _).symm.trans hj
    subst hp
    generalize hthread : D.state.threads j = q at hnext
    cases hnext with
    | begin hbegin =>
        cases hbegin with
        | start hcall => cases hloaded
        | offRing hoff => cases hoff
    | @start opts' pc' ok o d' p' hstart =>
        have haimed := h.aimed j _ _ hthread
        have hsame := (Call.NextStep.start hstart).direction
        cases hstart with
        | regs => exact direction_loadRegs_forward D.state.shared.buf hforward
        | inhibit => exact (hsame.resolve_right nofun).trans (haimed rfl hforward)
        | mailbox => exact haimed rfl hforward
        | wasPowered => exact haimed rfl hforward
        | powerCheck => exact haimed rfl hforward
        | powerEnable => exact (hsame.resolve_right nofun).trans (haimed rfl hforward)
        | powerPins => exact haimed rfl hforward
        | duty => exact haimed rfl hforward
        | _ => cases hloaded
    | write hwrite => cases hwrite
    | copy hcopy => cases hcopy
    | clear hclear => cases hclear
    | offRing hoff hp' hsupply =>
        rcases hp' with hp' | hp'
        · cases hp'
        · cases hp'
  · have hbefore : D.state.threads j = .start opts pc := (Function.update_of_ne hji _ _).symm.trans hj
    have hunder : (D.state.threads j).underWay = true := by
      rw [hbefore]
      exact StartPc.underWay_of_loaded hloaded
    exact (h.staged.next hnext (.inr ⟨j, hji, hunder⟩)).1.trans
      (h.aimed j opts pc hbefore hloaded hforward)

theorem Watched.step {k : Nat} {phys : Word} (hphys : phys ≠ 0) {D : Drain} {a : Threads.Action}
    {r : List Notice × Drain} (h : Watched k phys D) (halone : Threads.Alone D.state a)
    (hstep : step D a = some r) : Watched k phys r.2 := by
  obtain ⟨T, hT, hr⟩ := Logged.step_state hstep
  rw [hr]
  refine ⟨h.staged.step halone hT, h.locked.step hT, h.cleared.step h.locked hT, h.ring.step hT,
    ?_, ?_⟩
  · intro j opts pc hj hloaded hforward
    cases a with
    | thread i move =>
        obtain ⟨d, p, hnext, hd⟩ := Pool.step_thread hT
        have hd' : T = ⟨d, Function.update D.state.threads i p⟩ := hd
        rw [hd'] at hj ⊢
        exact aimed_next h (Call.nextStep_of_next hnext) hj hloaded hforward
    | surround event =>
        obtain ⟨d, haround, hd⟩ := Pool.step_surround hT
        have hd' : T = ⟨d, D.state.threads⟩ := hd
        rw [hd'] at hj ⊢
        have hthread : D.state.threads j = .start opts pc := hj
        refine Eq.trans (Driver.around_keeps haround ?_).1 (h.aimed j opts pc hj hloaded hforward)
        rintro fuel rfl
        apply h.staged.solo.waits j _ (h.staged.runScoped.running_of_tick haround)
        rw [hthread]
        exact StartPc.underWay_of_loaded hloaded
  · intro hrun
    cases a with
    | surround event =>
        obtain ⟨d, haround, hd⟩ := Pool.step_surround hT
        have hd' : T = ⟨d, D.state.threads⟩ := hd
        rw [hd'] at hrun ⊢
        obtain ⟨hran, hback⟩ := Driver.running_of_around haround hrun
        by_cases htick : ∃ fuel, event = .tick fuel
        · obtain ⟨fuel, rfl⟩ := htick
          exact (h.running hran).tick h.ring hphys h.staged.apart haround
        · have hnot (fuel : Nat) : event ≠ .tick fuel := fun heq => htick ⟨fuel, heq⟩
          have hquiet : ¬Line.commits r.1 = true := fun hcommits =>
            (Line.commits_iff.mp hcommits).elim fun opts hmem =>
              Driver.notMem_of_around haround rfl hmem
          have hsame : enter D.ledger D.state (.surround event) (r.1, ⟨d, D.state.threads⟩) =
              D.ledger := by
            cases event with
            | tick fuel => exact absurd rfl (hnot fuel)
            | _ => exact if_neg hquiet
          rw [hsame]
          apply (h.running hran).frame (Driver.around_keeps haround hnot) hback
          exact fun _ => congrArg (fun c => c.m.word 28) (Driver.around_engine haround hnot)
    | thread i move =>
        obtain ⟨d, p, hnext, hd⟩ := Pool.step_thread hT
        have hnextStep : Call.NextStep i D.state.shared (D.state.threads i) move r.1 d p :=
          Call.nextStep_of_next hnext
        have hd' : T = ⟨d, Function.update D.state.threads i p⟩ := hd
        rw [hd'] at hrun ⊢
        change Running (if Line.commits r.1 then none else D.ledger) d
        by_cases hran : D.state.shared.status.state = .running
        · have hnone (opts : CncRunOptions) : .committed opts ∉ r.1 := by
            intro hmem
            obtain ⟨gen, was, -, -, -, hstate, -⟩ := Call.next_committed hnext hmem
            rw [hran] at hstate
            rcases hstate with hstate | hstate <;> cases hstate
          rw [if_neg fun hcommits => (Line.commits_iff.mp hcommits).elim hnone]
          apply (h.running hran).frame (h.staged.next hnextStep (.inl hran))
          · exact (Driver.running_of_simulated (Driver.next_simulated hnext) hnone hrun).2
          · intro _
            apply hnextStep.rewritten.word
            intro hmem
            obtain ⟨position, hi⟩ := Call.loads_head hmem
            exact h.cleared i _ _ hi hran
        · obtain ⟨opts, gen, was, hi, ho, hcommit, -⟩ := Threads.commits_of_running hnext hrun hran
          have hmem : .committed opts ∈ r.1 := by
            rw [show r.1 = [.committed opts] from ho]
            exact List.mem_cons_self
          rw [if_pos (Line.commits_iff.mpr ⟨opts, hmem⟩),
            show d = D.state.shared.commit opts from hcommit]
          exact .committed (h.staged.prepared i opts _ hi) (h.aimed i opts _ hi rfl)

theorem watched_probe (ringMb : Nat) {args : ScriptArgs} (lines : PinId → Bool) (railOn : Bool)
    (hgpio : args.gpioBase ≠ args.mailboxPhys) (hepit : args.epitStatusRegister ≠ args.mailboxPhys)
    (hpwm : args.pwmSampleRegister ≠ args.mailboxPhys) :
    ∃ k, Watched k args.fifoStartPhys (probe ringMb args lines railOn) := by
  obtain ⟨k, hring⟩ := Threads.ringed_probe ringMb args lines railOn
  exact ⟨k, Threads.staged_probe ringMb lines railOn hgpio hepit hpwm,
    Threads.locked_probe ringMb args lines railOn, fun i data position hi => (nomatch hi), hring,
    fun i opts pc hi => (nomatch hi),
    fun hrun => absurd hrun (Threads.probe_rests ringMb args lines railOn)⟩

/-- The feeder has let the buffer run dry: streaming is declared, the run in flight goes
forward, and its head has come to where the ring ended as the end of data was signalled. -/
structure RunDry (D : Drain) : Prop where
  running : D.state.shared.status.state = .running
  streaming : D.state.shared.status.streaming = true
  forward : D.state.shared.status.runningBackward = false
  dry : ∃ u, D.ledger = some u ∧ D.state.shared.head = u.inIndex

theorem Watched.runDry {k : Nat} {phys : Word} {D : Drain} (h : Watched k phys D)
    (hends : D.state.shared.endsStream = true)
    (hcovered : ∀ u, D.ledger = some u → u.covered = true) : RunDry D := by
  obtain ⟨hleft, hstreaming⟩ := (Bool.and_eq_true _ _).mp hends
  obtain ⟨hmail, hrunning⟩ := (Bool.and_eq_true _ _).mp hleft
  have hrun : D.state.shared.status.state = .running := of_decide_eq_true hrunning
  have hwatched := h.running hrun
  obtain ⟨u, hu⟩ := hwatched.parked.mp (hwatched.mailbox (bne_iff_ne.mp hmail))
  obtain ⟨hforward, hhead⟩ := hwatched.covered u hu (hcovered u hu)
  exact ⟨hrun, hstreaming, hforward, u, hu, hhead⟩

/-- In every run with starts made one at a time, and with every end of data that comes
while streaming is declared one of a forward run which began its last tick covered: an
underrun is counted, or entered, only over a buffer that has run dry. -/
theorem underrun_means_underrun {ringMb : Nat} {args : ScriptArgs} {lines : PinId → Bool}
    {railOn : Bool} (hring : args.fifoStartPhys ≠ 0) (hgpio : args.gpioBase ≠ args.mailboxPhys)
    (hepit : args.epitStatusRegister ≠ args.mailboxPhys)
    (hpwm : args.pwmSampleRegister ≠ args.mailboxPhys) {as : List Threads.Action}
    {r : List Notice × Drain}
    (hexec : System.execute step as (probe ringMb args lines railOn) = some r)
    (hguard : System.Along step Genuine as (probe ringMb args lines railOn)) {a : Threads.Action}
    {q : List Notice × Drain} (hgenuine : Genuine r.2 a) (hstep : step r.2 a = some q)
    (halarm : ¬Driver.Unalarmed r.2.state.shared q.2.state.shared) : RunDry r.2 := by
  obtain ⟨k, hprobe⟩ := watched_probe ringMb lines railOn hgpio hepit hpwm
  have hwatched : Watched k args.fifoStartPhys r.2 :=
    (System.execute_guarded (I := Watched k args.fifoStartPhys) (P := fun _ => True)
      (fun D a r h hguard hstep => ⟨h.step hring hguard.alone hstep, fun _ _ => trivial⟩)
      hprobe hguard hexec).1
  obtain ⟨T, hT, hq⟩ := Logged.step_state hstep
  rw [hq] at halarm
  obtain ⟨rfl, hends⟩ := (Threads.unalarmed_of_step hT).resolve_left halarm
  exact hwatched.runDry hends (hgenuine.covered rfl hends)

private def ranDry : List Threads.Action :=
  .surround (.setStreaming true) :: Threads.callWrite 0 [1] ++
    Threads.call 0 (.start (.resume 1)) 15 ++ List.replicate 3 (.surround (.tick 200))

private def genuine (D : Drain) (a : Threads.Action) : Bool :=
  match a with
  | .thread _ (.start _) => !(D.state.threads 0).starting
  | .surround .sdmaInterrupt => !D.state.shared.endsStream || D.ledger.all EndOfData.covered
  | _ => true

private theorem genuine_of_test {D : Drain} {a : Threads.Action} (h : genuine D a = true)
    (honly : Threads.OnlyThreads [0] D.state) : Genuine D a := by
  constructor
  · rintro i call rfl j
    by_cases hj : j = 0
    · subst hj
      exact (Bool.not_eq_true' _).mp h
    · rw [honly j fun hmem => hj (List.mem_singleton.mp hmem)]
      rfl
  · rintro rfl hends e he
    rcases (Bool.or_eq_true _ _).mp h with hquiet | hcovered
    · rw [hends] at hquiet
      cases hquiet
    · rw [he] at hcovered
      exact hcovered

theorem underrun_means_underrun_dry :
    ∃ r q, System.execute step ranDry (probe 1 (.over fun _ => 0) (fun _ => true) false) = some r ∧
      step r.2 (.surround .sdmaInterrupt) = some q ∧
      q.2.state.shared.status.state = .underrun ∧ RunDry r.2 := by
  have hrun : ((System.execute step ranDry (probe 1 (.over fun _ => 0) (fun _ => true) false)).bind
      fun r => (step r.2 (.surround .sdmaInterrupt)).map fun q =>
        (r.2.ledger, r.2.state.shared.status.state, q.2.state.shared.status.state)) =
      some (some ⟨true, 1⟩, .running, .underrun) := by decide +kernel
  obtain ⟨r, hexec, hrest⟩ := Option.bind_eq_some_iff.mp hrun
  obtain ⟨q, hcall, hseen⟩ := Option.map_eq_some_iff.mp hrest
  injection hseen with hledger hstates
  injection hstates with hbefore hafter
  have hcheck : System.check step (fun D a => genuine D a && Threads.moves [0] a) ranDry
      (probe 1 (.over fun _ => 0) (fun _ => true) false) = true := by decide +kernel
  have hguard : System.Along step Genuine ranDry
      (probe 1 (.over fun _ => 0) (fun _ => true) false) :=
    (Threads.along_logged (fun j hj => rfl) hcheck).mono fun D a ha => genuine_of_test ha.1 ha.2
  have hgenuine : Genuine r.2 (.surround .sdmaInterrupt) := by
    refine ⟨Threads.alone_surround _ _, ?_⟩
    intro _ _ e he
    obtain rfl : (⟨true, 1⟩ : EndOfData) = e := Option.some.inj (hledger.symm.trans he)
    rfl
  have halarm : ¬Driver.Unalarmed r.2.state.shared q.2.state.shared := by
    intro hquiet
    have hentered := hquiet.state hafter
    rw [hbefore] at hentered
    cases hentered
  exact ⟨r, q, hexec, hcall, hafter, underrun_means_underrun (by decide) (by decide) (by decide)
    (by decide) hexec hguard hgenuine hcall halarm⟩

/-- A run that is halted, then declared a stream, then backtracked to its dead stop. -/
private def backtracked : List Threads.Action :=
  [.surround (.setStepFrequency 1000), .surround (.setRampRate 500000)] ++
    Threads.callWrite 0 [0x80, 1, 0x80] ++ Threads.call 0 (.start .run) 16 ++
    List.replicate 2 (.surround (.tick 400)) ++
    [.surround .halt, .surround (.setStreaming true)] ++
    Threads.call 0 (.start (.resume (-1))) 14 ++ [.surround (.tick 400), .surround (.tick 200)]

/-- The dead stop of a backward run is counted as an underrun. -/
theorem underrun_means_underrun_false :
    ∃ r q, System.execute step backtracked (probe 1 (.over fun _ => 0) (fun _ => true) false) =
        some r ∧ step r.2 (.surround .sdmaInterrupt) = some q ∧
      q.2.state.shared.status.state = .underrun ∧ q.2.state.shared.underrunCount = 1 ∧
      ¬RunDry r.2 := by
  have hrun : ((System.execute step backtracked
      (probe 1 (.over fun _ => 0) (fun _ => true) false)).bind
      fun r => (step r.2 (.surround .sdmaInterrupt)).map fun q =>
        (r.2.state.shared.status.runningBackward, q.2.state.shared.status.state,
          q.2.state.shared.underrunCount)) = some (true, .underrun, 1) := by decide +kernel
  obtain ⟨r, hexec, hrest⟩ := Option.bind_eq_some_iff.mp hrun
  obtain ⟨q, hcall, hseen⟩ := Option.map_eq_some_iff.mp hrest
  injection hseen with hback hentered
  injection hentered with hstate hcount
  refine ⟨r, q, hexec, hcall, hstate, hcount, ?_⟩
  intro hdry
  rw [hdry.forward] at hback
  cases hback

end Drain

end Glowforge.Cnc
