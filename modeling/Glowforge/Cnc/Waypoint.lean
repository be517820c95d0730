import Glowforge.Cnc.OneStart
import Glowforge.Sdma.LaserGate

/-! Waypoint and end of data on one interrupt line. The notifies of a run merge in a
single pending flag, and the callback tells them apart by the mailbox: the script sets it
when it parks and at no other time, and a start clears it before its run. -/
namespace Glowforge.Cnc
open Foundation Sdma Player

/-! What a tick signals. -/

def mail (addr v : Word) (es : List Event) : Word := (Driver.writesTo addr es).getLastD v

theorem mail_append (addr v : Word) (es fs : List Event) :
    mail addr v (es ++ fs) = mail addr (mail addr v es) fs := by
  unfold mail Driver.writesTo
  rw [List.filterMap_append]
  generalize List.filterMap _ es = ws
  generalize List.filterMap _ fs = vs
  induction ws generalizing v with
  | nil => rfl
  | cons w ws ih => rw [List.cons_append, List.getLastD_cons, List.getLastD_cons, ih]

theorem mail_write {addr a : Word} (h : a ≠ addr) (v w : Word) :
    mail addr v [.write a w] = v := by
  unfold mail Driver.writesTo
  simp [h]

structure Apart (p : Player) : Prop where
  gpio : p.gpio ≠ p.mailbox
  epit : p.epit ≠ p.mailbox
  pwm : p.pwm ≠ p.mailbox

theorem Apart.of_setup {p p' : Player} (h : Apart p) (hsetup : p'.setup = p.setup) : Apart p' := by
  have hgpio : p'.gpio = p.gpio := congrArg Setup.gpio hsetup
  have hepit : p'.epit = p.epit := congrArg Setup.epit hsetup
  have hpwm : p'.pwm = p.pwm := congrArg Setup.pwm hsetup
  have hmailbox : p'.mailbox = p.mailbox := congrArg Setup.mailbox hsetup
  refine ⟨?_, ?_, ?_⟩
  · rw [hgpio, hmailbox]
    exact h.gpio
  · rw [hepit, hmailbox]
    exact h.epit
  · rw [hpwm, hmailbox]
    exact h.pwm

theorem Apart.of_rewritten {words : List Word} {c c' : Config Label} (h : Apart c.m.player)
    (hc : Rewritten words c c') (hmailbox : 21 ∉ words) : Apart c'.m.player := by
  obtain ⟨hgpio, hepit, hpwm⟩ := hc.registers
  have hword := hc.word hmailbox
  refine ⟨?_, ?_, ?_⟩
  · change c'.m.mda ≠ c'.m.word 21
    rw [hgpio, hword]
    exact h.gpio
  · change c'.m.pda ≠ c'.m.word 21
    rw [hepit, hword]
    exact h.epit
  · change c'.m.r5 ≠ c'.m.word 21
    rw [hpwm, hword]
    exact h.pwm

/-- What a part of a tick signals: it goes on without a word to the mailbox, and its
notifies mean that the waypoint counter has come to zero; or it parks, with a 1. -/
inductive Signals (p p' : Player) (es : List Event) (v : Word) : Prop where
  | onward (hdir : p'.dir = p.dir) (hmail : mail p.mailbox v es = v)
      (hnotify : p.dir ≠ 0 → es.any Event.isNotify = true → p.waypoint ≠ 0 ∧ p'.waypoint = 0)
      (hzero : p.waypoint = 0 → p'.waypoint = 0)
  | parked (hran : p.dir ≠ 0) (hdir : p'.dir = 0) (hmail : mail p.mailbox v es = 1)

theorem consume_signals {p : Player} (h : Apart p) (v : Word) :
    Signals p p.consume.2 p.consume.1 v := by
  have hact : mail p.mailbox v p.actOn.1 = v ∧ p.actOn.1.any Event.isNotify = false := by
    unfold Player.actOn power motion
    split
    · split
      · exact ⟨rfl, rfl⟩
      · split
        · exact ⟨rfl, rfl⟩
        · exact ⟨mail_write h.pwm v _, rfl⟩
    · refine ⟨?_, rfl⟩
      unfold mail Driver.writesTo
      simp [h.gpio]
  have hwaypoint : p.actOn.2.waypoint = p.waypoint := by
    obtain ⟨x, y, z, d, f, w, hacted⟩ := actOn_cases p
    rw [hacted]
  have hend : mail p.mailbox v p.actOn.2.endbyte.1 = v ∧
      (p.actOn.2.endbyte.1.any Event.isNotify = true →
        p.waypoint ≠ 0 ∧ p.actOn.2.endbyte.2.waypoint = 0) ∧
      (p.waypoint = 0 → p.actOn.2.endbyte.2.waypoint = 0) := by
    rw [← hwaypoint]
    unfold Player.endbyte
    simp only
    split
    · rename_i hzero
      exact ⟨rfl, fun h => absurd h Bool.false_ne_true, fun _ => hzero⟩
    · rename_i hcount
      split
      · exact ⟨rfl, fun _ => ⟨hcount, rfl⟩, fun _ => rfl⟩
      · exact ⟨rfl, fun h => absurd h Bool.false_ne_true, fun hzero => absurd hzero hcount⟩
  have hmail : mail p.mailbox v p.consume.1 = v := by
    have hread : mail p.mailbox v p.consume.1 =
        mail p.mailbox v (p.actOn.1 ++ p.actOn.2.endbyte.1) := rfl
    rw [hread, mail_append, hact.1, hend.1]
  have hnotify : p.consume.1.any Event.isNotify = p.actOn.2.endbyte.1.any Event.isNotify := by
    have hread : p.consume.1.any Event.isNotify =
        (p.actOn.1 ++ p.actOn.2.endbyte.1).any Event.isNotify := rfl
    rw [hread, List.any_append, hact.2, Bool.false_or]
  refine .onward (consume_dir p) hmail ?_ hend.2.2
  intro _ hany
  rw [hnotify] at hany
  exact hend.2.1 hany

theorem park_signals {p : Player} (h : Apart p) (v : Word) : Signals p p.park.2 p.park.1 v := by
  by_cases hdir : p.dir = 0
  · refine .onward ?_ ?_ (fun hran => absurd hdir hran) ?_
    · rw [park_dir, hdir]
    · unfold Player.park
      simp only [if_pos hdir]
      unfold mail Driver.writesTo
      split <;> simp [h.gpio]
    · intro hzero
      unfold Player.park
      simp only [if_pos hdir]
      split <;> exact hzero
  · refine .parked hdir (park_dir p) ?_
    unfold Player.park
    simp only [if_neg hdir]
    unfold mail Driver.writesTo
    simp [h.gpio]

theorem Signals.trans {p q p' : Player} {es fs : List Event} {v : Word}
    (h : Signals p q es v) (h' : ∀ v, Signals q p' fs v) (hmailbox : q.mailbox = p.mailbox)
    (hbusy : q.dir = p.dir) : Signals p p' (es ++ fs) v := by
  cases h with
  | parked hran hdir hmail => exact absurd (hbusy.symm.trans hdir) hran
  | onward hdir hmail hnotify hzero =>
      cases h' v with
      | onward hdir' hmail' hnotify' hzero' =>
          rw [hmailbox] at hmail'
          refine .onward (hdir'.trans hdir) ?_ ?_ fun h => hzero' (hzero h)
          · rw [mail_append, hmail, hmail']
          · intro hran hany
            rw [List.any_append] at hany
            rcases (Bool.or_eq_true _ _).mp hany with hany | hany
            · obtain ⟨hcount, hcame⟩ := hnotify hran hany
              exact ⟨hcount, hzero' hcame⟩
            · obtain ⟨hcount, hcame⟩ := hnotify' (by rwa [hdir]) hany
              exact ⟨fun h => hcount (hzero h), hcame⟩
      | parked hran' hdir' hmail' =>
          rw [hmailbox] at hmail'
          refine .parked (by rwa [hdir] at hran') hdir' ?_
          rw [mail_append, hmail, hmail']

theorem Signals.settle {p q : Player} {es : List Event} {v : Word} (h : Signals p q es v) :
    Signals p q.settle es v := by
  cases h with
  | onward hdir hmail hnotify hzero => exact .onward hdir hmail hnotify hzero
  | parked hran hdir hmail => exact .parked hran hdir hmail

theorem drains_signals {n : Nat} {p p' : Player} {es : List Event} {ph : Phase}
    (h : Drains n p es ph p') (hapart : Apart p) (v : Word) : Signals p p' es v := by
  induction h generalizing v with
  | park hidle => exact park_signals hapart v
  | last hbusy hlast => exact (consume_signals hapart v).settle
  | @more n p p' es ph hbusy hmore rest ih =>
      have hsetup : p.consume.2.settle.setup = p.setup := consume_setup p
      have hfirst := (consume_signals hapart v).settle
      exact hfirst.trans (ih (hapart.of_setup hsetup)) (congrArg Setup.mailbox hsetup)
        (consume_dir p)

theorem tick_signals {n : Nat} {ph ph' : Phase} {p p' : Player} {es : List Event}
    (h : Tick n ph p es ph' p') (hapart : Apart p) (v : Word) : Signals p p' es v := by
  cases h with
  | restart hph =>
      exact .onward rfl (mail_write hapart.epit v 1) (fun _ hany => absurd hany Bool.false_ne_true) id
  | @play n p p' es ph hdrains =>
      have hack : Signals p p [.write p.epit p.flags] v :=
        .onward rfl (mail_write hapart.epit v _) (fun _ hany => absurd hany Bool.false_ne_true) id
      exact hack.trans (drains_signals hdrains hapart) rfl rfl

/-! One run at a time, and its interrupt. -/

namespace Driver

/-- scratch6, the direction: zero once the script has parked. -/
def direction (d : Driver) : Word := d.buf.engine.m.word 30

/-- scratch7, the waypoint counter. -/
def waypointCounter (d : Driver) : Word := d.buf.engine.m.word 31

def actsOnWaypoint (d : Driver) : Bool :=
  d.sdmaMailbox == 0 && d.status.waypointArmed && d.status.decelOnInterrupt

end Driver

/-- What has happened since the run in flight was committed: its waypoint counter has come
to zero while it played, its script has parked, and so many waypoint actions. -/
structure RunHistory where
  reached : Bool
  parked : Bool
  actions : Nat
  deriving DecidableEq, Repr

/-- The threads with the interrupt line of the channel. -/
structure Line where
  threads : Threads
  pending : Bool
  run : RunHistory

namespace Line

def probe (ringMb : Nat) (args : ScriptArgs) (lines : PinId → Bool) (railOn : Bool) : Line :=
  ⟨.probe ringMb args lines railOn, false, ⟨false, false, 0⟩⟩

def raises (o : List Notice) : Bool :=
  o.any fun n =>
    match n with
    | .played es => es.any Event.isNotify
    | _ => false

def commits (o : List Notice) : Bool :=
  o.any fun n =>
    match n with
    | .committed _ => true
    | _ => false

def ticked (run : RunHistory) (d d' : Driver) : RunHistory :=
  { run with
    reached := run.reached ||
      d.waypointCounter != 0 && d'.waypointCounter == 0 && d'.direction != 0
    parked := run.parked || d.direction != 0 && d'.direction == 0 }

def interrupted (run : RunHistory) (d : Driver) : RunHistory :=
  if d.actsOnWaypoint then { run with actions := run.actions + 1 } else run

/-- A notify raises the flag; the callback is delivered while it is up, and takes it down. -/
def step (L : Line) : Threads.Action → Option (List Notice × Line)
  | .surround .sdmaInterrupt =>
      if L.pending then
        (L.threads.step (.surround .sdmaInterrupt)).map fun r =>
          (r.1, ⟨r.2, false, interrupted L.run L.threads.shared⟩)
      else none
  | .surround (.tick fuel) =>
      (L.threads.step (.surround (.tick fuel))).map fun r =>
        (r.1, ⟨r.2, L.pending || raises r.1, ticked L.run L.threads.shared r.2.shared⟩)
  | a =>
      (L.threads.step a).map fun r =>
        (r.1, ⟨r.2, L.pending, if commits r.1 then ⟨false, false, 0⟩ else L.run⟩)

end Line

/-! A start prepares its run. -/

/-- The sections of a start that come with the mailbox cleared. -/
def StartPc.cleared : StartPc → Bool
  | .wasPowered _ | .power _ _ _ | .duty _ _ | .commit _ _ => true
  | _ => false

structure StartPc.Prepared (d : Driver) (pc : StartPc) : Prop where
  direction : pc.loaded = true → d.direction ≠ 0
  mailbox : pc.cleared = true → d.sdmaMailbox = 0

namespace Call

variable {i : Nat} {d d' : Driver} {p p' : Call} {o : List Notice} {move : Move}

theorem NextStep.direction (h : NextStep i d p move o d' p') :
    d'.direction = d.direction ∨ ∃ opts gen, p = .start opts (.regs gen) := by
  by_cases hregs : ∃ opts gen, p = .start opts (.regs gen)
  · exact .inr hregs
  · apply Or.inl
    apply h.rewritten.word
    cases p with
    | start opts pc =>
        cases pc with
        | regs gen => exact absurd ⟨opts, gen, rfl⟩ hregs
        | inhibit gen => exact (by decide : (30 : Word) ∉ [20])
        | _ => exact List.not_mem_nil
    | write data pc =>
        cases pc with
        | publish => exact (by decide : (30 : Word) ∉ [29])
        | _ => exact List.not_mem_nil
    | clear data position pc =>
        cases pc with
        | clear => cases data <;> cases position <;> decide
        | _ => exact List.not_mem_nil
    | _ => exact List.not_mem_nil

theorem loads_mailbox (p : Call) : 21 ∉ p.loads := fun hmem =>
  absurd (loads_subset p hmem) (by decide)

theorem NextStep.mailbox (h : NextStep i d p move o d' p') :
    d'.sdmaMailbox = d.sdmaMailbox ∨ ∃ opts gen, p = .start opts (.mailbox gen) := by
  cases h with
  | begin hbegin => exact .inl rfl
  | invalid e => exact .inl rfl
  | @start opts pc ok o d' p' hstep =>
      cases hstep with
      | mailbox => exact .inr ⟨opts, _, rfl⟩
      | powerEnable => cases ok <;> exact .inl rfl
      | supplyDisable => cases ok <;> exact .inl rfl
      | committed hclear hgen hstate =>
          exact .inl (congrArg Aside.sdmaMailbox (Driver.aside_commit d opts))
      | _ => exact .inl rfl
  | write hstep => cases hstep <;> exact .inl rfl
  | copy hstep => cases hstep <;> exact .inl rfl
  | clear hstep => cases hstep <;> exact .inl rfl
  | offRing hp hp' hsupply =>
      cases hsupply with
      | keep haside => exact .inl (congrArg Aside.sdmaMailbox haside)
      | raise hraise haside => exact .inl (congrArg Aside.sdmaMailbox haside)
      | lower hlower haside => exact .inl (congrArg Aside.sdmaMailbox haside)

theorem direction_loadRegs (b : Pulsebuf) (opts : CncRunOptions) :
    (b.loadRegs opts).engine.m.word 30 ≠ 0 := by
  have hword : (b.loadRegs opts).engine.m.word 30 =
      if opts.backward then 0xFFFFFFFF else 1 := by
    simp [Pulsebuf.loadRegs, Config.withMachine, Machine.word, Machine.setWord]
  rw [hword]
  cases opts.backward <;> decide

theorem StartStep.prepared {opts opts' : CncRunOptions} {ok : Bool} {pc pc' : StartPc}
    (h : StartStep i d opts ok pc o d' (.start opts' pc')) (hp : pc.Prepared d) :
    pc'.Prepared d' := by
  have hdirection (hregs : ∀ gen, pc ≠ .regs gen) : d'.direction = d.direction := by
    rcases (NextStep.start h).direction with hsame | ⟨opts, gen, heq⟩
    · exact hsame
    · injection heq with _ hpc
      exact absurd hpc (hregs gen)
  cases h with
  | regs =>
      exact ⟨fun _ => direction_loadRegs d.buf opts, fun hcleared => nomatch hcleared⟩
  | inhibit =>
      refine ⟨fun _ => ?_, fun hcleared => nomatch hcleared⟩
      rw [hdirection fun gen heq => nomatch heq]
      exact hp.direction rfl
  | mailbox => exact ⟨fun _ => hp.direction rfl, fun _ => rfl⟩
  | wasPowered => exact ⟨fun _ => hp.direction rfl, fun _ => hp.mailbox rfl⟩
  | powerCheck => exact ⟨fun _ => hp.direction rfl, fun _ => hp.mailbox rfl⟩
  | powerEnable => cases ok <;> exact ⟨fun _ => hp.direction rfl, fun _ => hp.mailbox rfl⟩
  | powerPins =>
      cases hduty : opts.preservePower <;>
        exact ⟨fun _ => hp.direction rfl, fun _ => hp.mailbox rfl⟩
  | duty => exact ⟨fun _ => hp.direction rfl, fun _ => hp.mailbox rfl⟩
  | _ => exact ⟨fun hloaded => (nomatch hloaded), fun hcleared => nomatch hcleared⟩

end Call

/-! The callback. -/

namespace Driver

variable {d : Driver}

theorem interrupt_acts (h : d.actsOnWaypoint = true) :
    d.cncSdmaInterrupt.2.status.state = d.status.state ∧
      d.cncSdmaInterrupt.2.status.decelerating = true ∧
      d.cncSdmaInterrupt.2.status.decelOnInterrupt = false := by
  obtain ⟨hleft, hdecel⟩ := (Bool.and_eq_true _ _).mp h
  obtain ⟨hmail, harmed⟩ := (Bool.and_eq_true _ _).mp hleft
  have hzero : d.sdmaMailbox = 0 := eq_of_beq hmail
  unfold cncSdmaInterrupt
  rw [if_neg (not_not.mpr hzero), if_pos harmed]
  simp only [if_pos hdecel]
  unfold cncDecelStart
  split
  · exact ⟨rfl, ‹_›, rfl⟩
  · exact ⟨rfl, rfl, rfl⟩

/-- A signal that is neither the end of data nor an armed waypoint starts nothing. -/
theorem interrupt_passes (hmail : d.sdmaMailbox = 0) (h : d.actsOnWaypoint = false) :
    d.cncSdmaInterrupt.2.status = { d.status with
      waypointArmed := d.cncSdmaInterrupt.2.status.waypointArmed } := by
  unfold cncSdmaInterrupt
  rw [if_neg (not_not.mpr hmail)]
  by_cases harmed : d.status.waypointArmed = true
  · have hdecel : ¬d.status.decelOnInterrupt = true := by
      intro hdecel
      simp [actsOnWaypoint, hmail, harmed, hdecel] at h
    rw [if_pos harmed]
    simp only [if_neg hdecel]
  · rw [if_neg harmed]

theorem interrupt_ends (hmail : d.sdmaMailbox ≠ 0) (hrun : d.status.state = .running) :
    d.cncSdmaInterrupt.2.status.state ≠ .running := by
  have hstop (d : Driver) {nextState : CncState} (hnext : nextState ≠ .running) :
      (d.driverStop true nextState).status.state ≠ .running := by
    have hcontrol := congrArg (fun c => c.status.state) (control_driverStop d true nextState)
    exact fun hstate => hnext (hcontrol.symm.trans hstate)
  unfold cncSdmaInterrupt
  rw [if_pos hmail, if_pos hrun]
  split
  · exact hstop _ (by decide)
  · exact hstop _ (by decide)

theorem around_interrupt (d : Driver) : d.around .sdmaInterrupt = some d.cncSdmaInterrupt := rfl

theorem interrupt_rests (hmail : d.sdmaMailbox ≠ 0) (hrest : d.status.state ≠ .running) :
    d.cncSdmaInterrupt.2 = d := by
  unfold cncSdmaInterrupt
  rw [if_pos hmail, if_neg hrest]

theorem around_keeps {event : Surrounding} {r : List Notice × Driver}
    (h : d.around event = some r) (htick : ∀ fuel, event ≠ .tick fuel) :
    r.2.direction = d.direction ∧ r.2.sdmaMailbox = d.sdmaMailbox := by
  refine ⟨congrArg (fun c => c.m.word 30) (around_engine h htick), ?_⟩
  rcases around_aside h htick with haside | haside
  · exact congrArg Aside.sdmaMailbox haside
  · exact congrArg Aside.sdmaMailbox haside

end Driver

namespace Control

theorem Step.decelOnInterrupt {c c' : Control} {o : List Notice} (h : Step c o c')
    (hup : c'.status.decelOnInterrupt = true) :
    c.status.decelOnInterrupt = true ∨ ∃ opts, .committed opts ∈ o := by
  cases h with
  | commit opts hclear hstate => exact .inr ⟨opts, List.mem_cons_self⟩
  | stop nextState hfrom hnext => cases hup
  | fault hstate => cases hup
  | decelerate hrun =>
      rw [decelerate_decelOnInterrupt] at hup
      exact .inl hup
  | waypoint harmed =>
      unfold Control.waypoint at hup
      split at hup
      · rw [decelerate_decelOnInterrupt] at hup
        cases hup
      · exact .inl hup
  | unlock =>
      rw [unlock_status] at hup
      exact .inl hup
  | latch hstate =>
      obtain ⟨pending, triggered, hframe⟩ := c.latchFaults_frame
      rw [hframe] at hup
      exact .inl hup
  | _ => exact .inl hup

end Control

theorem Driver.around_decelOnInterrupt {d : Driver} {event : Surrounding}
    {r : List Notice × Driver} (h : d.around event = some r)
    (hup : r.2.status.decelOnInterrupt = true) : d.status.decelOnInterrupt = true := by
  rcases Control.Step.decelOnInterrupt (Driver.around_simulated h) hup with hbefore | ⟨opts, hmem⟩
  · exact hbefore
  · exact absurd (List.mem_filter.mp hmem).1 (notMem_of_around h rfl)

/-! The threads alone. -/

theorem StartPc.loaded_of_cleared {pc : StartPc} (h : pc.cleared = true) : pc.loaded = true := by
  cases pc <;> first | rfl | cases h

theorem StartPc.Prepared.of_same {pc : StartPc} {d d' : Driver} (h : pc.Prepared d)
    (hsame : pc.underWay = true → d'.direction = d.direction ∧ d'.sdmaMailbox = d.sdmaMailbox) :
    pc.Prepared d' := by
  constructor
  · intro hloaded
    rw [(hsame (StartPc.underWay_of_loaded hloaded)).1]
    exact h.direction hloaded
  · intro hcleared
    rw [(hsame (StartPc.underWay_of_loaded (StartPc.loaded_of_cleared hcleared))).2]
    exact h.mailbox hcleared

namespace Threads

/-- Starts are made one at a time, and each prepares its run. -/
structure Staged (T : Threads) : Prop where
  runScoped : T.shared.control.RunScoped
  solo : Solo T
  waiting : Waiting T
  apart : Apart T.shared.buf.engine.m.player
  prepared : ∀ i opts pc, T.threads i = .start opts pc → pc.Prepared T.shared

theorem Staged.next {T : Threads} {i : Nat} {move : Move} {o : List Notice} {d : Driver} {p : Call}
    (h : Staged T) (hnext : Call.NextStep i T.shared (T.threads i) move o d p)
    (hother : T.shared.status.state = .running ∨ ∃ j, j ≠ i ∧ (T.threads j).underWay = true) :
    d.direction = T.shared.direction ∧ d.sdmaMailbox = T.shared.sdmaMailbox := by
  have hnone {opts : CncRunOptions} {pc : StartPc} (hi : T.threads i = .start opts pc)
      (hunder : pc.underWay = true) : False := by
    rcases hother with hrun | ⟨j, hj, hother⟩
    · exact h.solo.waits i (by rw [hi]; exact hunder) hrun
    · exact hj (h.solo.one j i (Call.starting_of_underWay hother) (by rw [hi]; rfl))
  refine ⟨?_, ?_⟩
  · rcases hnext.direction with hsame | ⟨opts, gen, hi⟩
    · exact hsame
    · exact (hnone hi rfl).elim
  · rcases hnext.mailbox with hsame | ⟨opts, gen, hi⟩
    · exact hsame
    · exact (hnone hi rfl).elim

theorem Staged.step {T : Threads} {a : Action} {r : List Notice × Threads} (h : Staged T)
    (halone : Alone T a) (hstep : T.step a = some r) : Staged r.2 := by
  refine ⟨h.runScoped.step (step_simulated hstep), h.solo.step halone hstep, h.waiting.step hstep,
    ?_, ?_⟩
  · cases a with
    | thread i move =>
        obtain ⟨d, p, hnext, hr⟩ := Pool.step_thread hstep
        have hnextStep : Call.NextStep i T.shared (T.threads i) move r.1 d p :=
          Call.nextStep_of_next hnext
        rw [hr]
        exact h.apart.of_rewritten hnextStep.rewritten (Call.loads_mailbox _)
    | surround event =>
        obtain ⟨d, haround, hr⟩ := Pool.step_surround hstep
        rw [hr]
        by_cases htick : ∃ fuel, event = .tick fuel
        · obtain ⟨fuel, rfl⟩ := htick
          obtain ⟨-, es, c, hhost, hd⟩ := Driver.tick_cases haround
          obtain ⟨ph, hw⟩ := h.waiting
          obtain ⟨n, ph', hticked, -⟩ := tick_of_exec hw hhost
          have hc : d.buf.engine = c := congrArg (fun r => r.2.buf.engine) hd
          rw [hc]
          exact h.apart.of_setup hticked.setup
        · have hsame : d.buf.engine = T.shared.buf.engine :=
            Driver.around_engine haround fun fuel heq => htick ⟨fuel, heq⟩
          rw [hsame]
          exact h.apart
  · intro j opts pc hj
    cases a with
    | thread i move =>
        obtain ⟨d, p, hnext, hr⟩ := Pool.step_thread hstep
        have hnextStep : Call.NextStep i T.shared (T.threads i) move r.1 d p :=
          Call.nextStep_of_next hnext
        rw [hr] at hj ⊢
        by_cases hji : j = i
        · subst hji
          have hp : p = .start opts pc := (Function.update_self _ _ _).symm.trans hj
          subst hp
          generalize hthread : T.threads j = q at hnextStep
          generalize r.1 = o at hnextStep
          cases hnextStep with
          | begin hbegin =>
              cases hbegin with
              | start hcall => exact ⟨fun hloaded => (nomatch hloaded), fun hcleared => nomatch hcleared⟩
              | offRing hoff => cases hoff
          | @start opts' pc' ok o d' p' hstart =>
              exact hstart.prepared (h.prepared j _ _ hthread)
          | write hwrite => cases hwrite
          | copy hcopy => cases hcopy
          | clear hclear => cases hclear
          | offRing hoff hp' hsupply =>
              rcases hp' with hp' | hp'
              · cases hp'
              · cases hp'
        · have hbefore : T.threads j = .start opts pc :=
            (Function.update_of_ne hji _ _).symm.trans hj
          apply (h.prepared j opts pc hbefore).of_same
          intro hunder
          exact h.next hnextStep (.inr ⟨j, hji, by rw [hbefore]; exact hunder⟩)
    | surround event =>
        obtain ⟨d, haround, hr⟩ := Pool.step_surround hstep
        rw [hr] at hj ⊢
        apply (h.prepared j opts pc hj).of_same
        intro hunder
        apply Driver.around_keeps haround
        rintro fuel rfl
        exact h.solo.waits j (by rw [show T.threads j = .start opts pc from hj]; exact hunder)
          (h.runScoped.running_of_tick haround)

theorem staged_probe (ringMb : Nat) {args : ScriptArgs} (lines : PinId → Bool) (railOn : Bool)
    (hgpio : args.gpioBase ≠ args.mailboxPhys) (hepit : args.epitStatusRegister ≠ args.mailboxPhys)
    (hpwm : args.pwmSampleRegister ≠ args.mailboxPhys) :
    Staged (probe ringMb args lines railOn) := by
  refine ⟨runScoped_probe ringMb args lines railOn, solo_probe ringMb args lines railOn,
    waiting_probe ringMb args lines railOn, ?_, fun i opts pc hi => nomatch hi⟩
  have hmailbox (args : ScriptArgs) :
      (loadSdmaScript args).m.player.mailbox = args.mailboxPhys := by
    simp [loadSdmaScript, Program.goto, Machine.player, Machine.word, Machine.setWord]
  refine ⟨?_, ?_, ?_⟩
  · change args.gpioBase ≠ (loadSdmaScript _).m.player.mailbox
    rw [hmailbox]
    exact hgpio
  · change args.epitStatusRegister ≠ (loadSdmaScript _).m.player.mailbox
    rw [hmailbox]
    exact hepit
  · change args.pwmSampleRegister ≠ (loadSdmaScript _).m.player.mailbox
    rw [hmailbox]
    exact hpwm

end Threads

/-! The threads with the line. -/

namespace Line

/-- Starts are made one at a time, and no run commits over a pending interrupt. -/
structure OneAtATime (L : Line) (a : Threads.Action) : Prop where
  alone : Threads.Alone L.threads a
  delivered : ∀ r opts, L.threads.step a = some r → .committed opts ∈ r.1 → L.pending = false

/-- While the driver runs: the mailbox and the history tell whether the script has parked,
and a pending interrupt comes of it or of the waypoint. -/
structure InFlight (d : Driver) (pending : Bool) (run : RunHistory) : Prop where
  parked : run.parked = true ↔ d.direction = 0
  mailbox : d.sdmaMailbox ≠ 0 ↔ d.direction = 0
  pending : pending = true → d.direction = 0 ∨ run.reached = true
  fresh : d.status.decelOnInterrupt = true → run.actions = 0

structure Told (L : Line) : Prop where
  staged : Threads.Staged L.threads
  flight : L.threads.shared.status.state = .running → InFlight L.threads.shared L.pending L.run
  once : L.run.actions ≤ 1
  reached : 0 < L.run.actions → L.run.reached = true

theorem InFlight.frame {d d' : Driver} {pending : Bool} {run : RunHistory}
    (h : InFlight d pending run)
    (hsame : d'.direction = d.direction ∧ d'.sdmaMailbox = d.sdmaMailbox)
    (hdecel : d'.status.decelOnInterrupt = true → d.status.decelOnInterrupt = true) :
    InFlight d' pending run := by
  obtain ⟨hdirection, hmailbox⟩ := hsame
  constructor
  · rw [hdirection]
    exact h.parked
  · rw [hdirection, hmailbox]
    exact h.mailbox
  · rw [hdirection]
    exact h.pending
  · exact fun hup => h.fresh (hdecel hup)

theorem InFlight.committed {d : Driver} {opts : CncRunOptions} {gen : Word} {was : Bool}
    (h : (StartPc.commit gen was).Prepared d) :
    InFlight (d.commit opts) false ⟨false, false, 0⟩ := by
  have haside := Driver.aside_commit d opts
  have hdirection : (d.commit opts).direction = d.direction :=
    congrArg (fun a => a.buf.engine.m.word 30) haside
  have hmailbox : (d.commit opts).sdmaMailbox = 0 :=
    (congrArg Aside.sdmaMailbox haside).trans (h.mailbox rfl)
  have hran : (d.commit opts).direction ≠ 0 := by
    rw [hdirection]
    exact h.direction rfl
  constructor
  · exact iff_of_false Bool.false_ne_true hran
  · exact iff_of_false (not_not.mpr hmailbox) hran
  · exact fun hup => absurd hup Bool.false_ne_true
  · exact fun _ => rfl

theorem reached_of_zero (run : RunHistory) {d d' : Driver} (hbefore : d.waypointCounter ≠ 0)
    (hafter : d'.waypointCounter = 0) (hgoes : d'.direction ≠ 0) :
    (ticked run d d').reached = true := by
  have hzero : (d'.waypointCounter == 0) = true := beq_iff_eq.mpr hafter
  unfold ticked
  simp only [bne_iff_ne.mpr hbefore, hzero, bne_iff_ne.mpr hgoes, Bool.and_self, Bool.or_true]

theorem parked_of_zero (run : RunHistory) {d d' : Driver} (hran : d.direction ≠ 0)
    (hzero : d'.direction = 0) : (ticked run d d').parked = true := by
  have hparks : (d'.direction == 0) = true := beq_iff_eq.mpr hzero
  unfold ticked
  simp only [bne_iff_ne.mpr hran, hparks, Bool.and_self, Bool.or_true]

theorem InFlight.tick {d d' : Driver} {pending : Bool} {run : RunHistory}
    (h : InFlight d pending run) (hapart : Apart d.buf.engine.m.player)
    (hw : ∃ ph : Phase, ph.Waits d.buf.engine) {fuel : Nat} {o : List Notice}
    (htick : d.tick fuel = some (o, d')) :
    InFlight d' (pending || raises o) (ticked run d d') := by
  obtain ⟨-, es, c, hhost, hr⟩ := Driver.tick_cases htick
  obtain ⟨ph, hw⟩ := hw
  obtain ⟨n, ph', hticked, -⟩ := tick_of_exec hw hhost
  injection hr with ho hd
  have hraises : raises o = es.any Event.isNotify := by
    rw [ho]
    exact Bool.or_false _
  have hdirection : d'.direction = c.m.player.dir := by
    rw [hd]
    rfl
  have hwaypoint : d'.waypointCounter = c.m.player.waypoint := by
    rw [hd]
    rfl
  have hmailbox : d'.sdmaMailbox = mail d.buf.engine.m.player.mailbox d.sdmaMailbox es := by
    rw [hd]
    rfl
  have hdecel : d'.status.decelOnInterrupt = d.status.decelOnInterrupt := by rw [hd]
  cases tick_signals hticked hapart d.sdmaMailbox with
  | onward hdir hmail hnotify hzero =>
      have hsame : d'.direction = d.direction := hdirection.trans hdir
      have hparked : (ticked run d d').parked = run.parked := by
        simp [ticked, hsame]
      constructor
      · rw [hparked, hsame]
        exact h.parked
      · rw [hmailbox, hmail, hsame]
        exact h.mailbox
      · intro hpending
        rw [hsame]
        rcases (Bool.or_eq_true _ _).mp hpending with hpending | hraised
        · rcases h.pending hpending with hzero | hreached
          · exact .inl hzero
          · exact .inr (by simp [ticked, hreached])
        · by_cases hparked : d.direction = 0
          · exact .inl hparked
          · rw [hraises] at hraised
            obtain ⟨hbefore, hafter⟩ := hnotify hparked hraised
            have hgoes : d'.direction ≠ 0 := by rwa [hsame]
            exact .inr (reached_of_zero run hbefore (hwaypoint.trans hafter) hgoes)
      · rw [hdecel]
        exact h.fresh
  | parked hran hdir hmail =>
      have hzero : d'.direction = 0 := hdirection.trans hdir
      have hparked := parked_of_zero run hran hzero
      constructor
      · exact iff_of_true hparked hzero
      · rw [hmailbox, hmail]
        exact iff_of_true (by decide) hzero
      · exact fun _ => .inl hzero
      · rw [hdecel]
        exact h.fresh

structure Told.Calls (L : Line) (d : Driver) : Prop where
  waypoint : L.threads.shared.actsOnWaypoint = true →
    L.run.reached = true ∧ L.run.actions = 0 ∧ d.status.decelerating = true
  decelerates : d.status.decelerating = true →
    L.threads.shared.status.decelerating = true ∨ L.threads.shared.actsOnWaypoint = true
  leaves : L.threads.shared.status.state = .running → d.status.state ≠ .running →
    L.run.parked = true
  parked : L.run.parked = true → d.status.state ≠ .running ∧ d.status.decelerating = false

theorem Told.running_of_acts {L : Line} (h : Told L)
    (hacts : L.threads.shared.actsOnWaypoint = true) :
    L.threads.shared.status.state = .running ∧ L.threads.shared.sdmaMailbox = 0 ∧
      L.threads.shared.status.decelOnInterrupt = true := by
  obtain ⟨hleft, hdecel⟩ := (Bool.and_eq_true _ _).mp hacts
  obtain ⟨hmail, harmed⟩ := (Bool.and_eq_true _ _).mp hleft
  exact ⟨h.staged.runScoped.running_of_armed harmed, eq_of_beq hmail, hdecel⟩

theorem Told.calls {L : Line} (h : Told L) (hpending : L.pending = true) :
    Calls L L.threads.shared.cncSdmaInterrupt.2 := by
  have hscoped : L.threads.shared.cncSdmaInterrupt.2.control.RunScoped :=
    h.staged.runScoped.step (Driver.around_simulated (Driver.around_interrupt _))
  have hstays : L.threads.shared.status.state ≠ .running →
      L.threads.shared.cncSdmaInterrupt.2.status.state ≠ .running := fun hrest hrun =>
    hrest (Threads.running_of_around (Driver.around_interrupt _) hrun)
  constructor
  · intro hacts
    obtain ⟨hrun, hmail, hdecel⟩ := h.running_of_acts hacts
    have hflight := h.flight hrun
    refine ⟨?_, hflight.fresh hdecel, (Driver.interrupt_acts hacts).2.1⟩
    rcases hflight.pending hpending with hzero | hreached
    · exact absurd hmail (hflight.mailbox.mpr hzero)
    · exact hreached
  · intro hdecelerates
    by_cases hmail : L.threads.shared.sdmaMailbox = 0
    · cases hacts : L.threads.shared.actsOnWaypoint with
      | true => exact .inr rfl
      | false =>
          rw [Driver.interrupt_passes hmail hacts] at hdecelerates
          exact .inl hdecelerates
    · -- an end of data leaves a driver that decelerates no more
      by_cases hrun : L.threads.shared.status.state = .running
      · have hends := Driver.interrupt_ends hmail hrun
        have hquiet : L.threads.shared.cncSdmaInterrupt.2.status.decelerating = false :=
          (hscoped.quiet hends).decelerating
        rw [hquiet] at hdecelerates
        cases hdecelerates
      · rw [Driver.interrupt_rests hmail hrun] at hdecelerates
        exact .inl hdecelerates
  · intro hrun hleft
    have hflight := h.flight hrun
    rw [hflight.parked, ← hflight.mailbox]
    intro hmail
    cases hacts : L.threads.shared.actsOnWaypoint with
    | true => exact hleft ((Driver.interrupt_acts hacts).1.trans hrun)
    | false =>
        rw [Driver.interrupt_passes hmail hacts] at hleft
        exact hleft hrun
  · intro hparked
    have hleft : L.threads.shared.cncSdmaInterrupt.2.status.state ≠ .running := by
      by_cases hrun : L.threads.shared.status.state = .running
      · have hflight := h.flight hrun
        exact Driver.interrupt_ends (hflight.mailbox.mpr (hflight.parked.mp hparked)) hrun
      · exact hstays hrun
    exact ⟨hleft, (hscoped.quiet hleft).decelerating⟩

theorem Told.interrupted {L : Line} {o : List Notice} {T : Threads} (h : Told L)
    (hpending : L.pending = true)
    (hstep : L.threads.step (.surround .sdmaInterrupt) = some (o, T)) :
    Told ⟨T, false, Line.interrupted L.run L.threads.shared⟩ := by
  have hcalls := h.calls hpending
  have hstaged : Threads.Staged T :=
    h.staged.step (Threads.alone_surround L.threads .sdmaInterrupt) hstep
  have hshared : T.shared = L.threads.shared.cncSdmaInterrupt.2 := by
    obtain ⟨d, haround, hr⟩ := Pool.step_surround hstep
    have hT : T = ⟨d, L.threads.threads⟩ := hr
    have hd : L.threads.shared.cncSdmaInterrupt = (o, d) := Option.some.inj haround
    rw [hT, hd]
  cases hacts : L.threads.shared.actsOnWaypoint with
  | true =>
      obtain ⟨hreached, hzero, -⟩ := hcalls.waypoint hacts
      have hrun' : Line.interrupted L.run L.threads.shared = { L.run with actions := 1 } := by
        unfold Line.interrupted
        rw [if_pos hacts, hzero]
      rw [hrun']
      refine ⟨hstaged, ?_, Nat.le_refl 1, fun _ => hreached⟩
      intro _
      rw [hshared]
      obtain ⟨hstate, -, hdecel⟩ := Driver.interrupt_acts hacts
      have hflight := h.flight (h.running_of_acts hacts).1
      obtain ⟨hdirection, hmailbox⟩ :=
        Driver.around_keeps (Driver.around_interrupt L.threads.shared) fun fuel heq => nomatch heq
      constructor
      · rw [hdirection]
        exact hflight.parked
      · rw [hdirection, hmailbox]
        exact hflight.mailbox
      · exact fun hup => absurd hup Bool.false_ne_true
      · intro hup
        rw [hdecel] at hup
        cases hup
  | false =>
      have hrun' : Line.interrupted L.run L.threads.shared = L.run := by
        unfold Line.interrupted
        rw [hacts, if_neg Bool.false_ne_true]
      rw [hrun']
      refine ⟨hstaged, ?_, h.once, h.reached⟩
      intro hrun
      have hran : L.threads.shared.status.state = .running := by
        rw [hshared] at hrun
        exact Threads.running_of_around (Driver.around_interrupt _) hrun
      have hflight := h.flight hran
      have hframe : InFlight T.shared L.pending L.run := by
        rw [hshared]
        apply hflight.frame
        · exact Driver.around_keeps (Driver.around_interrupt _) fun fuel heq => nomatch heq
        · intro hup
          exact Driver.around_decelOnInterrupt (Driver.around_interrupt _) hup
      exact ⟨hframe.parked, hframe.mailbox, fun hup => absurd hup Bool.false_ne_true, hframe.fresh⟩

theorem commits_iff {o : List Notice} : commits o = true ↔ ∃ opts, .committed opts ∈ o := by
  unfold commits
  rw [List.any_eq_true]
  constructor
  · rintro ⟨n, hn, hcommits⟩
    cases n with
    | committed opts => exact ⟨opts, hn⟩
    | _ => cases hcommits
  · rintro ⟨opts, hn⟩
    exact ⟨_, hn, rfl⟩

theorem Told.other {L : Line} {a : Threads.Action} {q : List Notice × Threads} (h : Told L)
    (hguard : OneAtATime L a) (htick : ∀ fuel, a ≠ .surround (.tick fuel))
    (hstep : L.threads.step a = some q) :
    Told ⟨q.2, L.pending, if commits q.1 then ⟨false, false, 0⟩ else L.run⟩ := by
  have hstaged := h.staged.step hguard.alone hstep
  have hflight : q.2.shared.status.state = .running → InFlight q.2.shared L.pending
      (if commits q.1 then ⟨false, false, 0⟩ else L.run) := by
    intro hrun
    cases a with
    | surround event =>
        obtain ⟨d, haround, hr⟩ := Pool.step_surround hstep
        rw [hr] at hrun ⊢
        have hquiet : ¬commits q.1 = true := by
          intro hcommits
          obtain ⟨opts, hmem⟩ := commits_iff.mp hcommits
          exact Driver.notMem_of_around haround rfl hmem
        rw [if_neg hquiet]
        apply (h.flight (Threads.running_of_around haround hrun)).frame
        · apply Driver.around_keeps haround
          rintro fuel rfl
          exact htick fuel rfl
        · exact Driver.around_decelOnInterrupt haround
    | thread i move =>
        obtain ⟨d, p, hnext, hr⟩ := Pool.step_thread hstep
        rw [hr] at hrun ⊢
        by_cases hran : L.threads.shared.status.state = .running
        · have hnone (opts : CncRunOptions) : .committed opts ∉ q.1 := by
            intro hmem
            obtain ⟨gen, was, -, -, -, hstate, -⟩ := Call.next_committed hnext hmem
            rw [hran] at hstate
            rcases hstate with hstate | hstate <;> cases hstate
          have hquiet : ¬commits q.1 = true := fun hcommits =>
            (commits_iff.mp hcommits).elim hnone
          rw [if_neg hquiet]
          apply (h.flight hran).frame
          · exact h.staged.next (Call.nextStep_of_next hnext) (.inl hran)
          · intro hup
            rcases Control.Step.decelOnInterrupt (Driver.next_simulated hnext) hup with
              hbefore | ⟨opts, hmem⟩
            · exact hbefore
            · exact absurd (List.mem_filter.mp hmem).1 (hnone opts)
        · obtain ⟨opts, gen, was, hi, ho, hd, -⟩ := Threads.commits_of_running hnext hrun hran
          have hmem : .committed opts ∈ q.1 := by
            rw [show q.1 = [.committed opts] from ho]
            exact List.mem_cons_self
          have hd' : d = L.threads.shared.commit opts := hd
          rw [if_pos (commits_iff.mpr ⟨opts, hmem⟩), hguard.delivered q opts hstep hmem, hd']
          exact .committed (h.staged.prepared i opts _ hi)
  cases hcommits : commits q.1 with
  | true =>
      rw [hcommits] at hflight
      exact ⟨hstaged, hflight, Nat.zero_le 1, fun hpos => absurd hpos (Nat.lt_irrefl 0)⟩
  | false =>
      rw [hcommits] at hflight
      exact ⟨hstaged, hflight, h.once, h.reached⟩

theorem Told.ticked {L : Line} {fuel : Nat} {q : List Notice × Threads} (h : Told L)
    (hstep : L.threads.step (.surround (.tick fuel)) = some q) :
    Told ⟨q.2, L.pending || raises q.1, Line.ticked L.run L.threads.shared q.2.shared⟩ := by
  have hstaged := h.staged.step (Threads.alone_surround L.threads (.tick fuel)) hstep
  refine ⟨hstaged, ?_, h.once, ?_⟩
  · intro _
    obtain ⟨d, haround, hr⟩ := Pool.step_surround hstep
    rw [hr]
    exact (h.flight (h.staged.runScoped.running_of_tick haround)).tick h.staged.apart
      h.staged.waiting haround
  · intro hpos
    unfold Line.ticked
    simp only [h.reached hpos, Bool.true_or]

theorem Told.step {L : Line} {a : Threads.Action} {r : List Notice × Line} (h : Told L)
    (hguard : OneAtATime L a) (hstep : L.step a = some r) : Told r.2 := by
  unfold Line.step at hstep
  split at hstep
  · split at hstep
    · obtain ⟨q, hq, rfl⟩ := Option.map_eq_some_iff.mp hstep
      exact h.interrupted ‹_› hq
    · cases hstep
  · obtain ⟨q, hq, rfl⟩ := Option.map_eq_some_iff.mp hstep
    exact h.ticked hq
  · rename_i htick
    obtain ⟨q, hq, rfl⟩ := Option.map_eq_some_iff.mp hstep
    exact h.other hguard htick hq

theorem told_probe (ringMb : Nat) {args : ScriptArgs} (lines : PinId → Bool) (railOn : Bool)
    (hgpio : args.gpioBase ≠ args.mailboxPhys) (hepit : args.epitStatusRegister ≠ args.mailboxPhys)
    (hpwm : args.pwmSampleRegister ≠ args.mailboxPhys) :
    Told (probe ringMb args lines railOn) :=
  ⟨Threads.staged_probe ringMb lines railOn hgpio hepit hpwm,
    fun hrun => absurd hrun (Threads.probe_rests ringMb args lines railOn), Nat.zero_le 1,
    fun hpos => absurd hpos (Nat.lt_irrefl 0)⟩

/-- In every run with starts made one at a time and each run's interrupt delivered before
the next commits: the waypoint action is taken at most once a run, and only once the
waypoint counter has come to zero in it; a callback takes the driver out of RUNNING only
once the script has parked; and from then on the next callback delivered ends the run and
starts no deceleration. -/
theorem waypoint_told_from_end {ringMb : Nat} {args : ScriptArgs} {lines : PinId → Bool}
    {railOn : Bool} (hgpio : args.gpioBase ≠ args.mailboxPhys)
    (hepit : args.epitStatusRegister ≠ args.mailboxPhys)
    (hpwm : args.pwmSampleRegister ≠ args.mailboxPhys) {as : List Threads.Action}
    {r : List Notice × Line} (hexec : System.execute step as (probe ringMb args lines railOn) = some r)
    (hguard : System.Along step OneAtATime as (probe ringMb args lines railOn)) :
    r.2.run.actions ≤ 1 ∧ (0 < r.2.run.actions → r.2.run.reached = true) ∧
    ∀ q, r.2.step (.surround .sdmaInterrupt) = some q →
      Told.Calls r.2 q.2.threads.shared := by
  have hinv := (System.execute_guarded (I := Told) (P := fun _ => True)
    (fun L a r hinv hguard hstep => ⟨hinv.step hguard hstep, fun _ _ => trivial⟩)
    (told_probe ringMb lines railOn hgpio hepit hpwm) hguard hexec).1
  refine ⟨hinv.once, hinv.reached, ?_⟩
  intro q hq
  unfold step at hq
  simp only at hq
  split at hq
  · obtain ⟨u, hu, rfl⟩ := Option.map_eq_some_iff.mp hq
    obtain ⟨d, haround, hr⟩ := Pool.step_surround hu
    have hd : r.2.threads.shared.cncSdmaInterrupt = (u.1, d) := Option.some.inj haround
    change Told.Calls r.2 u.2.shared
    rw [hr]
    have hcalls := hinv.calls ‹_›
    rw [hd] at hcalls
    exact hcalls
  · cases hq

private theorem step_threads {L : Line} {a : Threads.Action} {r : List Notice × Line}
    (h : L.step a = some r) : ∃ q, L.threads.step a = some q ∧ r.2.threads = q.2 := by
  unfold step at h
  split at h
  · split at h
    · obtain ⟨q, hq, rfl⟩ := Option.map_eq_some_iff.mp h
      exact ⟨q, hq, rfl⟩
    · cases h
  · obtain ⟨q, hq, rfl⟩ := Option.map_eq_some_iff.mp h
    exact ⟨q, hq, rfl⟩
  · obtain ⟨q, hq, rfl⟩ := Option.map_eq_some_iff.mp h
    exact ⟨q, hq, rfl⟩

/-- A resume over one byte: its waypoint and its end of data come to one interrupt. -/
private def merged : List Threads.Action :=
  Threads.callWrite 0 [1] ++ Threads.call 0 (.start (.resume 1)) 15 ++
    List.replicate 3 (.surround (.tick 200))

private def oneAtATime (L : Line) (a : Threads.Action) : Bool :=
  (match a with
    | .thread _ (.start _) => !(L.threads.threads 0).starting
    | _ => true) &&
  match L.threads.step a with
  | none => true
  | some r => !commits r.1 || !L.pending

private theorem oneAtATime_of_test {L : Line} {a : Threads.Action} (h : oneAtATime L a = true)
    (honly : Threads.OnlyThreads [0] L.threads) : OneAtATime L a := by
  obtain ⟨halone, hdelivered⟩ := (Bool.and_eq_true _ _).mp h
  constructor
  · rintro i call rfl j
    by_cases hj : j = 0
    · subst hj
      exact (Bool.not_eq_true' _).mp halone
    · rw [honly j (fun hmem => hj (List.mem_singleton.mp hmem))]
      rfl
  · intro r opts hstep hmem
    rw [hstep] at hdelivered
    rcases (Bool.or_eq_true _ _).mp hdelivered with hquiet | hpending
    · rw [commits_iff.mpr ⟨opts, hmem⟩] at hquiet
      cases hquiet
    · exact (Bool.not_eq_true' _).mp hpending

/-- The one callback ends the run and starts no deceleration. -/
theorem waypoint_told_from_end_merged :
    ∃ r q, System.execute step merged (probe 1 (.over fun _ => 0) (fun _ => true) false) = some r ∧
      r.2.pending = true ∧ r.2.run = ⟨true, true, 0⟩ ∧
      r.2.step (.surround .sdmaInterrupt) = some q ∧
      q.2.threads.shared.status.state ≠ .running ∧
      q.2.threads.shared.status.decelerating = false := by
  have hrun : ((System.execute step merged (probe 1 (.over fun _ => 0) (fun _ => true) false)).bind
      fun r => (r.2.step (.surround .sdmaInterrupt)).map fun _ => (r.2.pending, r.2.run)) =
      some (true, ⟨true, true, 0⟩) := by decide +kernel
  obtain ⟨r, hexec, hrest⟩ := Option.bind_eq_some_iff.mp hrun
  obtain ⟨q, hcall, hseen⟩ := Option.map_eq_some_iff.mp hrest
  injection hseen with hpending hhistory
  have hcheck : System.check step (fun L a => oneAtATime L a && Threads.moves [0] a) merged
      (probe 1 (.over fun _ => 0) (fun _ => true) false) = true := by decide +kernel
  have hguard : System.Along step OneAtATime merged
      (probe 1 (.over fun _ => 0) (fun _ => true) false) := by
    have hboth := System.Along.invariant (I := fun L => Threads.OnlyThreads [0] L.threads) ?_
      (fun j hj => rfl) (System.along_of_check hcheck)
    · apply hboth.mono
      rintro L a ⟨ha, honly⟩
      exact oneAtATime_of_test ((Bool.and_eq_true _ _).mp ha).1 honly
    · intro L a r honly ha hstep
      obtain ⟨q, hq, hthreads⟩ := step_threads hstep
      rw [hthreads]
      exact honly.step (Threads.mem_of_moves ((Bool.and_eq_true _ _).mp ha).2) hq
  have hcalls := (waypoint_told_from_end (by decide) (by decide) (by decide) hexec hguard).2.2 q hcall
  have hparked := hcalls.parked (by rw [hhistory])
  exact ⟨r, q, hexec, hpending, hhistory, hcall, hparked⟩

end Line

end Glowforge.Cnc
