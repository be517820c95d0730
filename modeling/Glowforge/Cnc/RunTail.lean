import Glowforge.Cnc.OneStart
import Glowforge.Foundation.Ledger

/-! The tail of a run. One word of the script is the end of the data of a forward run,
which each write moves on, and the dead stop of a backward one, which nothing moves.
`pulsebuf_lock` spans the check of every operation and what it does by it. -/
namespace Glowforge.Cnc
open Foundation Sdma Player

namespace Driver

/-- Where the script stops to play. -/
def tail (d : Driver) : Word := d.buf.engine.m.word 29

end Driver

def WritePc.checked : WritePc → Bool
  | .sync | .room | .copy | .publish => true
  | _ => false

/-- The bytes of a write that are in the ring and not yet told to the script. -/
def Call.unpublished : Call → Nat
  | .write data .publish => data.length
  | _ => 0

def Call.transfers : Call → Bool
  | .start _ (.empty _) | .start _ (.verify _) | .start _ (.regs _) | .start _ (.inhibit _) => true
  | .start opts (.length _) => opts.backward
  | .write _ .sync | .write _ .publish => true
  | .clear _ _ .clear => true
  | _ => false

namespace Call

variable {i : Nat} {d d' : Driver} {p p' : Call} {o : List Notice} {move : Move}

theorem unpublished_of_free (h : p.holds = false) : p.unpublished = 0 := by
  cases p with
  | write data pc =>
      cases pc with
      | publish => cases h
      | _ => rfl
  | _ => rfl

theorem loads_tail (h : 29 ∈ p.loads) : (∃ opts gen, p = .start opts (.regs gen)) ∨
    (∃ data, p = .write data .publish) ∨ ∃ position, p = .clear true position .clear := by
  cases p with
  | start opts pc =>
      cases pc with
      | regs gen => exact .inl ⟨opts, gen, rfl⟩
      | inhibit gen => exact absurd h (by decide : (29 : Word) ∉ [20])
      | _ => exact absurd h List.not_mem_nil
  | write data pc =>
      cases pc with
      | publish => exact .inr (.inl ⟨data, rfl⟩)
      | _ => exact absurd h List.not_mem_nil
  | clear data position pc =>
      cases pc with
      | clear =>
          cases data with
          | true => exact .inr (.inr ⟨position, rfl⟩)
          | false => cases position <;> exact absurd h (by decide)
      | _ => exact absurd h List.not_mem_nil
  | _ => exact absurd h List.not_mem_nil

theorem NextStep.inIndex (h : NextStep i d p move o d' p') :
    d'.buf.fifo.inIndex = d.buf.fifo.inIndex ∨ (∃ data, p = .write data .copy) ∨
      ∃ data position, p = .clear data position .clear := by
  cases h with
  | begin hbegin => exact .inl rfl
  | invalid e => exact .inl rfl
  | @start opts pc ok o d' p' hstep =>
      apply Or.inl
      cases hstep with
      | noData hbuf => rcases hbuf with rfl | rfl <;> rfl
      | measured hbuf hadmits hreach => rcases hbuf with rfl | rfl <;> rfl
      | tooLong hbuf => rcases hbuf with rfl | rfl <;> rfl
      | powerEnable => cases ok <;> rfl
      | supplyDisable => cases ok <;> rfl
      | committed hclear hgen hstate =>
          exact congrArg (fun a => a.buf.fifo.inIndex) (Driver.aside_commit d _)
      | _ => rfl
  | write hstep => cases hstep <;> exact .inl rfl
  | copy hstep => exact .inr (.inl ⟨_, rfl⟩)
  | @clear data position pc ok o d' p' hstep =>
      cases pc with
      | clear => exact .inr (.inr ⟨data, position, rfl⟩)
      | _ => cases hstep <;> exact .inl rfl
  | offRing hp hp' hsupply => exact .inl (by rw [hsupply.buf])

theorem NextStep.outside (h : NextStep i d p move o d' p') (hp : p.holds = false) :
    d'.tail = d.tail ∧ d'.buf.fifo.inIndex = d.buf.fifo.inIndex := by
  constructor
  · apply h.rewritten.word
    intro hmem
    rcases loads_tail hmem with ⟨opts, gen, rfl⟩ | ⟨data, rfl⟩ | ⟨position, rfl⟩ <;> cases hp
  · rcases h.inIndex with hsame | ⟨data, rfl⟩ | ⟨data, position, rfl⟩
    · exact hsame
    · cases hp
    · cases hp

theorem NextStep.publishes {data : List Byte}
    (h : NextStep i d (.write data .publish) (.next true) o d' p') :
    d'.tail = d.buf.fifo.inIndex ∧ d'.buf.fifo.inIndex = d.buf.fifo.inIndex ∧
      d'.pulsebufLock = d.pulsebufLock ∧ p' = .write data (.leave none) := by
  cases h with
  | offRing hp hp' hsupply => cases hp
  | write hstep =>
      cases hstep with
      | unpublished hok => cases hok
      | published =>
          refine ⟨?_, rfl, rfl, rfl⟩
          have htail : d.buf.publishTail.engine.m.word 29 = d.buf.fifo.inIndex := by
            simp [Pulsebuf.publishTail, Config.withMachine, Machine.word, Machine.setWord]
          exact htail

theorem NextStep.copies {data : List Byte} (h : NextStep i d (.write data .copy) move o d' p') :
    d'.pulsebufLock = d.pulsebufLock ∧
      (d'.buf.fifo.inIndex = d.buf.fifo.inIndex + data.length ∧ p' = .write data .publish ∨
        d'.buf.fifo.inIndex = d.buf.fifo.inIndex ∧ p'.unpublished = 0) := by
  cases h with
  | offRing hp hp' hsupply => cases hp
  | write hstep => cases hstep
  | copy hstep =>
      cases hstep with
      | copied hfit hc => exact ⟨rfl, .inl ⟨rfl, rfl⟩⟩
      | rolledBack bs e hfit hc => exact ⟨rfl, .inr ⟨rfl, rfl⟩⟩

end Call

theorem Driver.around_tail {d : Driver} {event : Surrounding} {r : List Notice × Driver}
    (hw : ∃ ph : Phase, ph.Waits d.buf.engine) (h : d.around event = some r) :
    r.2.tail = d.tail ∧ r.2.buf.fifo.inIndex = d.buf.fifo.inIndex := by
  by_cases htick : ∃ fuel, event = .tick fuel
  · obtain ⟨fuel, rfl⟩ := htick
    obtain ⟨-, es, c, hhost, hd⟩ := tick_cases h
    obtain ⟨ph, hw⟩ := hw
    obtain ⟨n, ph', hticked, -⟩ := tick_of_exec hw hhost
    rw [hd]
    exact ⟨congrArg Setup.tail hticked.setup, rfl⟩
  · have hnot (fuel : Nat) : event ≠ .tick fuel := fun heq => htick ⟨fuel, heq⟩
    refine ⟨congrArg (fun c => c.m.word 29) (around_engine h hnot), ?_⟩
    rcases around_aside h hnot with haside | haside
    · exact congrArg (fun a => a.buf.fifo.inIndex) haside
    · exact congrArg (fun a => a.buf.fifo.inIndex) haside

theorem Control.Step.runningBackward {c c' : Control} {o : List Notice} (h : Control.Step c o c')
    (hrun : c.status.state = .running) (hrun' : c'.status.state = .running) :
    c'.status.runningBackward = c.status.runningBackward := by
  cases h with
  | commit opts hclear hstate =>
      rw [hrun] at hstate
      rcases hstate with hstate | hstate <;> cases hstate
  | stop nextState hfrom hnext => exact absurd hrun' hnext.1
  | fault hstate => cases hrun'
  | enable hclear hstate => cases hrun'
  | acknowledge hstate => cases hrun'
  | decelerate hran => exact c.decelerate_runningBackward
  | waypoint harmed => exact c.waypoint_runningBackward
  | unlock => rw [Control.unlock_status]
  | latch hstate =>
      rw [hrun] at hstate
      cases hstate
  | _ => rfl

theorem Driver.running_of_simulated {d d' : Driver} {o : List Notice} (h : Simulated o d d')
    (hnone : ∀ opts, .committed opts ∉ o) (hrun : d'.status.state = .running) :
    d.status.state = .running ∧ d'.status.runningBackward = d.status.runningBackward := by
  have hran : d.status.state = .running := by
    rcases Control.Step.running h hrun with hran | ⟨opts, hmem⟩
    · exact hran
    · exact absurd (List.mem_filter.mp hmem).1 (hnone opts)
  exact ⟨hran, Control.Step.runningBackward h hran hrun⟩

theorem Driver.running_of_around {d : Driver} {event : Surrounding} {r : List Notice × Driver}
    (h : d.around event = some r) (hrun : r.2.status.state = .running) :
    d.status.state = .running ∧ r.2.status.runningBackward = d.status.runningBackward :=
  running_of_simulated (around_simulated h) (fun _ => notMem_of_around h rfl) hrun

theorem Control.runningBackward_commit (c : Control) (opts : CncRunOptions) :
    (c.commit opts).status.runningBackward = opts.backward := by
  have haccelerate (c : Control) :
      c.accelerate.status.runningBackward = c.status.runningBackward := by
    unfold Control.accelerate
    split <;> rfl
  unfold Control.commit
  cases opts.accelerate with
  | true => exact haccelerate _
  | false => rfl

theorem Driver.runningBackward_commit (d : Driver) (opts : CncRunOptions) :
    (d.commit opts).status.runningBackward = opts.backward :=
  (congrArg (fun c => c.status.runningBackward) (control_commit d opts)).trans
    (Control.runningBackward_commit d.control opts)

namespace Threads

/-- The bytes in the ring that the script has not been told of. -/
def unpublished (T : Threads) : Nat :=
  match T.shared.pulsebufLock with
  | some i => (T.threads i).unpublished
  | none => 0

def Transfers (T : Threads) (a : Action) : Prop :=
  ∀ i ok, a = .thread i (.next ok) → (T.threads i).transfers = true → ok = true

end Threads

/-- What the script has been told: the tail that the last start has loaded, and how many
bytes the writes since have published. -/
structure Supplied where
  loaded : Word
  fed : Nat
  deriving DecidableEq, Repr

/-- A start loads the dead stop of a backward run, or the end of the data; a write
publishes its bytes. -/
def Supplied.enter (l : Supplied) (T : Threads) : Threads.Action → Supplied
  | .thread i (.next true) =>
      match T.threads i with
      | .start opts (.regs _) =>
          ⟨if opts.backward then T.shared.buf.backtrackDeadStop else T.shared.buf.fifo.inIndex, 0⟩
      | .write data .publish => { l with fed := l.fed + data.length }
      | _ => l
  | _ => l

abbrev Feed := Logged Threads Supplied

namespace Feed

def probe (ringMb : Nat) (args : ScriptArgs) (lines : PinId → Bool) (railOn : Bool) : Feed :=
  ⟨.probe ringMb args lines railOn, ⟨0, 0⟩⟩

abbrev step : Feed → Threads.Action → Option (List Notice × Feed) :=
  Logged.step Threads.step fun l T a _ => l.enter T a

/-- Starts are made one at a time, and the context transfers succeed. -/
structure Fair (F : Feed) (a : Threads.Action) : Prop where
  alone : Threads.Alone F.state a
  transfers : Threads.Transfers F.state a

/-- What a thread goes by from the check of its operation on. -/
def Stands (l : Supplied) (d : Driver) : Call → Prop
  | .start opts pc => pc.loaded = true →
      d.tail = l.loaded ∧ l.fed = 0 ∧ (opts.backward = false → d.buf.fifo.inIndex = d.tail)
  | .write _ pc => pc.checked = true →
      ¬(d.status.state = .running ∧ d.status.runningBackward = true)
  | .clear _ _ .clear => d.status.state ≠ .running
  | _ => True

/-- What holds while the driver runs. -/
structure Flight (l : Supplied) (T : Threads) : Prop where
  tail : T.shared.tail = l.loaded + l.fed
  backward : T.shared.status.runningBackward = true → l.fed = 0
  forward : T.shared.status.runningBackward = false →
    T.shared.buf.fifo.inIndex = T.shared.tail + T.unpublished

structure Steered (F : Feed) : Prop where
  solo : Threads.Solo F.state
  locked : Threads.Locked F.state
  waiting : Threads.Waiting F.state
  stands : ∀ i, Stands F.ledger F.state.shared (F.state.threads i)
  flight : F.state.shared.status.state = .running → Flight F.ledger F.state

variable {l : Supplied} {d d' : Driver} {p p' : Call} {T : Threads}

theorem holds_of_loaded {pc : StartPc} (h : pc.loaded = true) : pc.holds = true := by
  cases pc <;> first | rfl | cases h

theorem stands_of_free (l : Supplied) (d : Driver) (h : p.holds = false) : Stands l d p := by
  cases p with
  | start opts pc =>
      intro hloaded
      have hheld : pc.holds = true := holds_of_loaded hloaded
      cases h.symm.trans hheld
  | write data pc =>
      cases pc with
      | lock => exact fun hchecked => nomatch hchecked
      | _ => cases h
  | clear data position pc =>
      cases pc with
      | lock => trivial
      | _ => cases h
  | _ => trivial

theorem Stands.frame (h : Stands l d p)
    (htail : d'.tail = d.tail ∧ d'.buf.fifo.inIndex = d.buf.fifo.inIndex)
    (hrun : d'.status.state = .running →
      d.status.state = .running ∧ d'.status.runningBackward = d.status.runningBackward) :
    Stands l d' p := by
  cases p with
  | start opts pc =>
      intro hloaded
      rw [htail.1, htail.2]
      exact h hloaded
  | write data pc =>
      rintro hchecked ⟨hrunning, hback⟩
      obtain ⟨hran, hsame⟩ := hrun hrunning
      exact h hchecked ⟨hran, hsame.symm.trans hback⟩
  | clear data position pc =>
      cases pc with
      | clear => exact fun hrunning => h (hrun hrunning).1
      | _ => trivial
  | _ => trivial

theorem Flight.frame {T' : Threads} (h : Flight l T)
    (htail : T'.shared.tail = T.shared.tail ∧ T'.shared.buf.fifo.inIndex = T.shared.buf.fifo.inIndex)
    (hback : T'.shared.status.runningBackward = T.shared.status.runningBackward)
    (hunpublished : T'.unpublished = T.unpublished) : Flight l T' := by
  constructor
  · rw [htail.1]
    exact h.tail
  · rw [hback]
    exact h.backward
  · rw [hback, htail.1, htail.2, hunpublished]
    exact h.forward

variable {i : Nat} {o : List Notice} {move : Move}

theorem tail_loadRegs (b : Pulsebuf) (opts : CncRunOptions) :
    (b.loadRegs opts).engine.m.word 29 =
      if opts.backward then b.backtrackDeadStop else b.fifo.inIndex := by
  simp [Pulsebuf.loadRegs, Config.withMachine, Machine.word, Machine.setWord]

theorem tail_loadInhibit (b : Pulsebuf) (opts : CncRunOptions) :
    (b.loadInhibit opts).engine.m.word 29 = b.engine.m.word 29 := by
  simp [Pulsebuf.loadInhibit, Config.withMachine, Machine.word, Machine.setWord]

theorem enter_of_loads (l : Supplied) (h : 29 ∉ (T.threads i).loads) :
    l.enter T (.thread i move) = l := by
  unfold Supplied.enter
  split
  · rename_i heq
    injection heq with hi _
    subst hi
    split
    · rename_i hthread
      rw [hthread] at h
      exact absurd (by decide : (29 : Word) ∈ [29, 30, 31]) h
    · rename_i hthread
      rw [hthread] at h
      exact absurd (by decide : (29 : Word) ∈ [29]) h
    · rfl
  · rfl

theorem stands_start {opts : CncRunOptions} {pc : StartPc} {ok : Bool}
    (h : Call.StartStep i T.shared opts ok pc o d p) (hthread : T.threads i = .start opts pc)
    (hok : (Call.start opts pc).transfers = true → ok = true)
    (hstands : Stands l T.shared (.start opts pc)) :
    Stands (l.enter T (.thread i (.next ok))) d p := by
  have hsame (hpc : 29 ∉ (Call.start opts pc).loads) : l.enter T (.thread i (.next ok)) = l := by
    apply enter_of_loads
    rwa [hthread]
  cases h with
  | @regs gen =>
      obtain rfl : ok = true := hok rfl
      have henter : l.enter T (.thread i (.next true)) = ⟨if opts.backward then
          T.shared.buf.backtrackDeadStop else T.shared.buf.fifo.inIndex, 0⟩ := by
        simp only [Supplied.enter, hthread]
      rw [henter]
      refine fun _ => ⟨tail_loadRegs T.shared.buf opts, rfl, ?_⟩
      intro hback
      have htail := tail_loadRegs T.shared.buf opts
      rw [hback, if_neg Bool.false_ne_true] at htail
      exact htail.symm
  | @inhibit gen =>
      rw [hsame (by decide : (29 : Word) ∉ [20])]
      have hmoved : Stands l T.shared (.start opts (.mailbox gen)) := fun _ => hstands rfl
      exact hmoved.frame ⟨tail_loadInhibit T.shared.buf opts, rfl⟩ fun hrun => ⟨hrun, rfl⟩
  | mailbox =>
      rw [hsame List.not_mem_nil]
      exact fun _ => hstands rfl
  | wasPowered =>
      rw [hsame List.not_mem_nil]
      exact fun _ => hstands rfl
  | powerCheck =>
      rw [hsame List.not_mem_nil]
      exact fun _ => hstands rfl
  | powerEnable =>
      rw [hsame List.not_mem_nil]
      cases ok <;> exact fun _ => hstands rfl
  | powerPins =>
      rw [hsame List.not_mem_nil]
      cases hduty : opts.preservePower <;> exact fun _ => hstands rfl
  | duty =>
      rw [hsame List.not_mem_nil]
      exact fun _ => hstands rfl
  | turnedAway hstate => trivial
  | noData hbuf => trivial
  | unverified => trivial
  | returned => trivial
  | refused => trivial
  | pinsOff => trivial
  | _ => exact fun hloaded => nomatch hloaded

theorem stands_next (h : Call.NextStep i T.shared (T.threads i) move o d p)
    (hok : ∀ ok, move = .next ok → (T.threads i).transfers = true → ok = true)
    (hstands : Stands l T.shared (T.threads i)) : Stands (l.enter T (.thread i move)) d p := by
  generalize hthread : T.threads i = q at h hok hstands
  cases h with
  | begin hbegin => exact stands_of_free _ _ (Call.holds_of_begins hbegin)
  | invalid e => trivial
  | start hstep => exact stands_start hstep hthread (hok _ rfl) hstands
  | write hstep =>
      cases hstep with
      | checked hahead => exact fun _ => hahead
      | synced => exact fun _ => hstands rfl
      | room hroom => exact fun _ => hstands rfl
      | left => trivial
      | _ => exact fun hchecked => nomatch hchecked
  | copy hstep =>
      cases hstep with
      | copied hfit hc => exact fun _ => hstands rfl
      | rolledBack bs e hfit hc => exact fun hchecked => nomatch hchecked
  | clear hstep =>
      cases hstep with
      | checked hidle => exact hidle
      | _ => trivial
  | offRing hp hp' hsupply =>
      rcases hp' with rfl | hp'
      · trivial
      · exact stands_of_free _ _ (Call.holds_of_offRing hp')

theorem unpublished_next (h : Call.NextStep i d p move o d' p') :
    p'.unpublished = 0 ∨ ∃ data, p = .write data .copy := by
  cases h with
  | begin hbegin => exact .inl (Call.unpublished_of_free (Call.holds_of_begins hbegin))
  | invalid e => exact .inl rfl
  | start hstep => cases hstep <;> exact .inl rfl
  | write hstep => cases hstep <;> exact .inl rfl
  | copy hstep => exact .inr ⟨_, rfl⟩
  | clear hstep => cases hstep <;> exact .inl rfl
  | offRing hp hp' hsupply =>
      rcases hp' with rfl | hp'
      · exact .inl rfl
      · exact .inl (Call.unpublished_of_free (Call.holds_of_offRing hp'))

end Feed

namespace Threads

variable {T : Threads} {i : Nat} {d : Driver} {p : Call} {o : List Notice} {move : Move}

theorem Locked.unpublished (h : Locked T) (hi : (T.threads i).holds = true) :
    T.unpublished = (T.threads i).unpublished := by
  have hlock : T.shared.pulsebufLock = some i := h i hi
  unfold Threads.unpublished
  rw [hlock]

theorem unpublished_update (T : Threads) (hlock : d.pulsebufLock = some i) :
    Threads.unpublished ⟨d, Function.update T.threads i p⟩ = p.unpublished := by
  unfold Threads.unpublished
  simp only [hlock, Function.update_self]

theorem unpublished_none (h : T.shared.pulsebufLock = none) : T.unpublished = 0 := by
  unfold Threads.unpublished
  rw [h]

theorem Locked.unpublished_next (h : Locked T)
    (hnext : Call.NextStep i T.shared (T.threads i) move o d p)
    (hcopy : ∀ data, T.threads i ≠ .write data .copy)
    (hpublish : ∀ data, T.threads i ≠ .write data .publish) :
    Threads.unpublished ⟨d, Function.update T.threads i p⟩ = T.unpublished := by
  have hp : p.unpublished = 0 := by
    rcases Feed.unpublished_next hnext with hzero | ⟨data, hthread⟩
    · exact hzero
    · exact absurd hthread (hcopy data)
  have hq : (T.threads i).unpublished = 0 := by
    cases hthread : T.threads i with
    | write data pc =>
        cases pc with
        | publish => exact absurd hthread (hpublish data)
        | _ => rfl
    | _ => rfl
  have huses := hnext.uses
  generalize hbefore : T.shared.pulsebufLock = before at huses
  generalize hafter : d.pulsebufLock = after at huses
  generalize hholds : (T.threads i).holds = holds at huses
  generalize p.holds = holds' at huses
  cases huses with
  | keep =>
      cases before with
      | none => rw [unpublished_none hbefore, unpublished_none (T := ⟨d, _⟩) hafter]
      | some j =>
          by_cases hj : j = i
          · subst hj
            rw [unpublished_update T hafter, hp]
            unfold Threads.unpublished
            rw [hbefore]
            exact hq.symm
          · unfold Threads.unpublished
            simp only [hbefore, hafter, Function.update_of_ne hj]
  | acquire => rw [unpublished_none hbefore, unpublished_update T hafter, hp]
  | release => rw [h.unpublished hholds, hq, unpublished_none (T := ⟨d, _⟩) hafter]

end Threads

namespace Feed

variable {F : Feed} {i : Nat} {d : Driver} {p : Call} {o : List Notice} {move : Move}

theorem Steered.flight_next (h : Steered F)
    (hnext : Call.NextStep i F.state.shared (F.state.threads i) move o d p)
    (hok : ∀ ok, move = .next ok → (F.state.threads i).transfers = true → ok = true)
    (hran : F.state.shared.status.state = .running)
    (hback : d.status.runningBackward = F.state.shared.status.runningBackward) :
    Flight (F.ledger.enter F.state (.thread i move)) ⟨d, Function.update F.state.threads i p⟩ := by
  have hflight := h.flight hran
  have hstands := h.stands i
  by_cases hpublish : ∃ data, F.state.threads i = .write data .publish
  · obtain ⟨data, hthread⟩ := hpublish
    have hholds : (F.state.threads i).holds = true := by
      rw [hthread]
      rfl
    have hlock : F.state.shared.pulsebufLock = some i := h.locked i hholds
    have hunpublished := h.locked.unpublished hholds
    rw [hthread] at hnext hok hstands hunpublished
    have hforward : F.state.shared.status.runningBackward = false :=
      Bool.eq_false_iff.mpr fun hb => hstands rfl ⟨hran, hb⟩
    have hindex := hflight.forward hforward
    rw [hunpublished] at hindex
    obtain ⟨ok, rfl⟩ : ∃ ok, move = .next ok := by
      cases hnext with
      | offRing hp hp' hsupply => cases hp
      | write hstep => exact ⟨_, rfl⟩
    obtain rfl : ok = true := hok ok rfl rfl
    obtain ⟨htail, hsame, howner, hp⟩ := hnext.publishes
    have henter : F.ledger.enter F.state (.thread i (.next true)) =
        ⟨F.ledger.loaded, F.ledger.fed + data.length⟩ := by
      simp only [Supplied.enter, hthread]
    rw [henter]
    constructor
    · change d.tail = F.ledger.loaded + ((F.ledger.fed + data.length : Nat) : Word)
      rw [htail, hindex, hflight.tail, Nat.cast_add, BitVec.add_assoc]
      rfl
    · intro hb
      cases (hback.symm.trans hb).symm.trans hforward
    · intro _
      rw [Threads.unpublished_update F.state (howner.trans hlock), hp]
      change d.buf.fifo.inIndex = d.tail + 0
      rw [htail, hsame, add_zero]
  · have hloads : 29 ∉ (F.state.threads i).loads := by
      intro hmem
      rcases Call.loads_tail hmem with ⟨opts, gen, hthread⟩ | hthread | ⟨position, hthread⟩
      · exact h.solo.waits i (by rw [hthread]; rfl) hran
      · exact hpublish hthread
      · rw [hthread] at hstands
        exact hstands hran
    have htail : d.tail = F.state.shared.tail := hnext.rewritten.word hloads
    rw [enter_of_loads F.ledger hloads]
    by_cases hcopy : ∃ data, F.state.threads i = .write data .copy
    · obtain ⟨data, hthread⟩ := hcopy
      have hholds : (F.state.threads i).holds = true := by
        rw [hthread]
        rfl
      have hlock : F.state.shared.pulsebufLock = some i := h.locked i hholds
      have hunpublished := h.locked.unpublished hholds
      rw [hthread] at hnext hunpublished
      have hnone : F.state.unpublished = 0 := hunpublished
      obtain ⟨howner, hcopied⟩ := hnext.copies
      have hafter := Threads.unpublished_update (p := p) F.state (howner.trans hlock)
      rcases hcopied with ⟨hindex, hp⟩ | ⟨hindex, hp⟩
      · refine ⟨htail.trans hflight.tail, fun hb => hflight.backward (hback.symm.trans hb), ?_⟩
        intro hb
        have hbefore := hflight.forward (hback.symm.trans hb)
        rw [hnone, Nat.cast_zero, add_zero] at hbefore
        rw [hafter, hp]
        change d.buf.fifo.inIndex = d.tail + data.length
        rw [hindex, htail, hbefore]
      · exact hflight.frame ⟨htail, hindex⟩ hback (by rw [hafter, hp, hnone])
    · apply hflight.frame
      · refine ⟨htail, ?_⟩
        rcases hnext.inIndex with hsame | hthread | ⟨data, position, hthread⟩
        · exact hsame
        · exact absurd hthread hcopy
        · rw [hthread] at hstands
          exact absurd hran hstands
      · exact hback
      · exact h.locked.unpublished_next hnext (fun data hthread => hcopy ⟨data, hthread⟩)
          fun data hthread => hpublish ⟨data, hthread⟩

private theorem Steered.flight_commit {opts : CncRunOptions} {gen : Word} {was : Bool}
    (h : Steered F) (hthread : F.state.threads i = .start opts (.commit gen was)) :
    Flight F.ledger ⟨F.state.shared.commit opts,
      Function.update F.state.threads i (.start opts (.unlock was none))⟩ := by
  have hlock : F.state.shared.pulsebufLock = some i := h.locked i (by rw [hthread]; rfl)
  have hstands := h.stands i
  rw [hthread] at hstands
  obtain ⟨htail, hfed, hindex⟩ := hstands rfl
  have haside := Driver.aside_commit F.state.shared opts
  have hbuf : (F.state.shared.commit opts).buf = F.state.shared.buf := congrArg Aside.buf haside
  have hkept : (F.state.shared.commit opts).tail = F.state.shared.tail :=
    congrArg (fun b => b.engine.m.word 29) hbuf
  have hback : (F.state.shared.commit opts).status.runningBackward = opts.backward :=
    Driver.runningBackward_commit F.state.shared opts
  constructor
  · change (F.state.shared.commit opts).tail = _
    rw [hkept, htail, hfed, Nat.cast_zero, add_zero]
  · exact fun _ => hfed
  · intro hb
    have howner : (F.state.shared.commit opts).pulsebufLock = some i :=
      (congrArg Aside.pulsebufLock haside).trans hlock
    rw [Threads.unpublished_update F.state howner]
    change (F.state.shared.commit opts).buf.fifo.inIndex = (F.state.shared.commit opts).tail + 0
    rw [hkept, hbuf, hindex (hback.symm.trans hb), add_zero]

theorem Steered.step {a : Threads.Action} {r : List Notice × Feed} (h : Steered F)
    (hfair : Fair F a) (hstep : step F a = some r) : Steered r.2 := by
  obtain ⟨T, hT, hr⟩ := Logged.step_state hstep
  have hsolo := h.solo.step hfair.alone hT
  have hlocked := h.locked.step hT
  have hwaiting := h.waiting.step hT
  rw [hr]
  refine ⟨hsolo, hlocked, hwaiting, ?_, ?_⟩
  · intro j
    cases a with
    | surround event =>
        obtain ⟨d, haround, hd⟩ := Pool.step_surround hT
        have hd' : T = ⟨d, F.state.threads⟩ := hd
        rw [hd']
        exact (h.stands j).frame (Driver.around_tail h.waiting haround)
          (Driver.running_of_around haround)
    | thread i move =>
        obtain ⟨d, p, hnext, hd⟩ := Pool.step_thread hT
        have hnextStep : Call.NextStep i F.state.shared (F.state.threads i) move r.1 d p :=
          Call.nextStep_of_next hnext
        have hd' : T = ⟨d, Function.update F.state.threads i p⟩ := hd
        rw [hd']
        by_cases hj : j = i
        · subst hj
          simp only [Function.update_self]
          apply stands_next hnextStep _ (h.stands j)
          rintro ok rfl
          exact hfair.transfers j ok rfl
        · simp only [Function.update_of_ne hj]
          by_cases hheld : (F.state.threads j).holds = true
          · -- the thread that moves is outside the lock
            have hout : (F.state.threads i).holds = false := by
              apply Bool.eq_false_iff.mpr
              exact fun hi => hj (Pool.Owned.exclusive h.locked hheld hi)
            have hloads : 29 ∉ (F.state.threads i).loads := by
              intro hmem
              rcases Call.loads_tail hmem with ⟨opts, gen, hi⟩ | ⟨data, hi⟩ | ⟨position, hi⟩ <;>
                rw [hi] at hout <;> cases hout
            rw [enter_of_loads F.ledger hloads]
            apply (h.stands j).frame (hnextStep.outside hout)
            apply Driver.running_of_simulated (Driver.next_simulated hnext)
            intro opts hmem
            obtain ⟨gen, was, hi, -⟩ := Call.next_committed hnext hmem
            rw [hi] at hout
            cases hout
          · exact stands_of_free _ _ (Bool.eq_false_iff.mpr hheld)
  · intro hrun
    cases a with
    | surround event =>
        obtain ⟨d, haround, hd⟩ := Pool.step_surround hT
        have hd' : T = ⟨d, F.state.threads⟩ := hd
        rw [hd'] at hrun ⊢
        obtain ⟨hran, hback⟩ := Driver.running_of_around haround hrun
        apply (h.flight hran).frame (Driver.around_tail h.waiting haround) hback
        unfold Threads.unpublished
        rw [show d.pulsebufLock = F.state.shared.pulsebufLock from Driver.around_lock haround]
    | thread i move =>
        obtain ⟨d, p, hnext, hd⟩ := Pool.step_thread hT
        have hd' : T = ⟨d, Function.update F.state.threads i p⟩ := hd
        rw [hd'] at hrun ⊢
        by_cases hran : F.state.shared.status.state = .running
        · apply h.flight_next (Call.nextStep_of_next hnext) _ hran
          · exact Control.Step.runningBackward (Driver.next_simulated hnext) hran hrun
          · rintro ok rfl
            exact hfair.transfers i ok rfl
        · obtain ⟨opts, gen, was, hi, -, hcommit, hp⟩ := Threads.commits_of_running hnext hrun hran
          have hloads : 29 ∉ (F.state.threads i).loads := by
            rw [hi]
            exact List.not_mem_nil
          rw [show d = F.state.shared.commit opts from hcommit,
            show p = .start opts (.unlock was none) from hp, enter_of_loads F.ledger hloads]
          exact h.flight_commit hi

theorem steered_probe (ringMb : Nat) (args : ScriptArgs) (lines : PinId → Bool) (railOn : Bool) :
    Steered (probe ringMb args lines railOn) := by
  refine ⟨Threads.solo_probe ringMb args lines railOn, Threads.locked_probe ringMb args lines railOn,
    Threads.waiting_probe ringMb args lines railOn, fun i => trivial, ?_⟩
  exact fun hrun => absurd hrun (Threads.probe_rests ringMb args lines railOn)

/-- What concurrent writers and clears may do to a run in flight. -/
structure Kept (F : Feed) : Prop where
  clear : ∀ i data position pc move r, F.state.threads i = .clear data position pc →
    F.state.step (.thread i move) = some r → r.2.shared.buf = F.state.shared.buf
  loaded : ∀ a, (F.ledger.enter F.state a).loaded = F.ledger.loaded
  backward : F.state.shared.status.runningBackward = true →
    F.state.shared.tail = F.ledger.loaded
  forward : F.state.shared.status.runningBackward = false →
    F.state.shared.tail = F.ledger.loaded + F.ledger.fed
  caughtUp : F.state.shared.status.runningBackward = false →
    (∀ i data, F.state.threads i ≠ .write data .publish) →
      F.state.shared.tail = F.state.shared.buf.fifo.inIndex
  completed : F.state.shared.status.runningBackward = false →
    ∀ i data, F.state.threads i = .write data (.leave none) →
      F.state.shared.tail = F.state.shared.buf.fifo.inIndex

theorem Steered.kept (h : Steered F) (hran : F.state.shared.status.state = .running) : Kept F := by
  have hflight := h.flight hran
  have hcaught (hback : F.state.shared.status.runningBackward = false)
      (hnone : F.state.unpublished = 0) :
      F.state.shared.tail = F.state.shared.buf.fifo.inIndex := by
    rw [hflight.forward hback, hnone, Nat.cast_zero, add_zero]
  constructor
  · intro i data position pc move r hthread hstep
    obtain ⟨d, p, hnext, hr⟩ := Pool.step_thread hstep
    have hnextStep : Call.NextStep i F.state.shared (F.state.threads i) move r.1 d p :=
      Call.nextStep_of_next hnext
    have hstands := h.stands i
    rw [hthread] at hnextStep hstands
    rw [hr]
    generalize r.1 = o at hnextStep
    cases hnextStep with
    | offRing hp hp' hsupply => cases hp
    | clear hclear =>
        cases hclear with
        | nothing => rfl
        | cleared hc => exact absurd hran hstands
        | clearFailed hok => exact absurd hran hstands
        | _ => rfl
  · intro a
    cases a with
    | surround event => rfl
    | thread i move =>
        by_cases hloads : 29 ∈ (F.state.threads i).loads
        · rcases Call.loads_tail hloads with ⟨opts, gen, hi⟩ | ⟨data, hi⟩ | ⟨position, hi⟩
          · exact absurd hran (h.solo.waits i (by rw [hi]; rfl))
          · unfold Supplied.enter
            split
            · rename_i heq
              injection heq with hthread _
              subst hthread
              simp only [hi]
            · rfl
          · have hstands := h.stands i
            rw [hi] at hstands
            exact absurd hran hstands
        · rw [enter_of_loads F.ledger hloads]
  · intro hback
    rw [hflight.tail, hflight.backward hback, Nat.cast_zero, add_zero]
  · exact fun _ => hflight.tail
  · intro hback hnone
    apply hcaught hback
    unfold Threads.unpublished
    split
    · rename_i i hlock
      cases hthread : F.state.threads i with
      | write data pc =>
          cases pc with
          | publish => exact absurd hthread (hnone i data)
          | _ => rfl
      | _ => rfl
    · rfl
  · intro hback i data hthread
    apply hcaught hback
    rw [h.locked.unpublished (by rw [hthread]; rfl), hthread]
    rfl

/-- Whatever writers, clears, stops and callbacks come between the sections of starts made
one at a time, where the context transfers succeed: while the driver is RUNNING no section
of a clear touches the ring or the script; a backward run keeps the dead stop that its start
has loaded; and a forward one has the tail its start has loaded, moved on by the bytes of the
writes published since, which is the write index but between a copy and its publication. -/
theorem writers_and_clears_keep_to_the_run {ringMb : Nat} {args : ScriptArgs}
    {lines : PinId → Bool} {railOn : Bool} {as : List Threads.Action} {r : List Notice × Feed}
    (hexec : System.execute step as (probe ringMb args lines railOn) = some r)
    (hguard : System.Along step Fair as (probe ringMb args lines railOn))
    (hrun : r.2.state.shared.status.state = .running) : Kept r.2 := by
  have hinv := (System.execute_guarded (I := Steered) (P := fun _ => True)
    (fun F a r hinv hguard hstep => ⟨hinv.step hguard hstep, fun _ _ => trivial⟩)
    (steered_probe ringMb args lines railOn) hguard hexec).1
  exact hinv.kept hrun

/-- A run over two bytes; a clear is turned away, and a third byte is written. -/
private def fedRun : List Threads.Action :=
  Threads.callWrite 0 [1, 2] ++ Threads.call 0 (.start .run) 16 ++
    Threads.call 2 (.clear true true) 2 ++ .thread 2 (.next true) :: Threads.callWrite 1 [3]

private def fair (F : Feed) (a : Threads.Action) : Bool :=
  match a with
  | .thread _ (.start _) => [0, 1, 2].all fun j : Nat => !(F.state.threads j).starting
  | .thread i (.next ok) => !(F.state.threads i).transfers || ok
  | _ => true

private theorem fair_of_test {F : Feed} {a : Threads.Action} (h : fair F a = true)
    (honly : Threads.OnlyThreads [0, 1, 2] F.state) : Fair F a := by
  constructor
  · rintro i call rfl j
    by_cases hj : j ∈ [0, 1, 2]
    · exact (Bool.not_eq_true' _).mp (List.all_eq_true.mp h j hj)
    · rw [honly j hj]
      rfl
  · rintro i ok rfl htransfers
    rcases (Bool.or_eq_true _ _).mp h with hnone | hok
    · rw [htransfers] at hnone
      cases hnone
    · exact hok

theorem writers_and_clears_keep_to_the_run_fed :
    ∃ r, System.execute step fedRun (probe 1 (.over fun _ => 0) (fun _ => true) false) = some r ∧
      r.2.state.shared.status.state = .running ∧ r.2.ledger = ⟨2, 1⟩ ∧ Kept r.2 := by
  have hrun : (System.execute step fedRun (probe 1 (.over fun _ => 0) (fun _ => true) false)).map
      (fun r => (r.2.state.shared.status.state, r.2.ledger)) = some (.running, ⟨2, 1⟩) := by
    decide +kernel
  obtain ⟨r, hexec, hseen⟩ := Option.map_eq_some_iff.mp hrun
  injection hseen with hstate hledger
  have hcheck : System.check step (fun F a => fair F a && Threads.moves [0, 1, 2] a) fedRun
      (probe 1 (.over fun _ => 0) (fun _ => true) false) = true := by decide +kernel
  have hguard : System.Along step Fair fedRun (probe 1 (.over fun _ => 0) (fun _ => true) false) :=
    (Threads.along_logged (fun j hj => rfl) hcheck).mono fun F a ha => fair_of_test ha.1 ha.2
  exact ⟨r, hexec, hstate, hledger, writers_and_clears_keep_to_the_run hexec hguard hstate⟩

end Feed

end Glowforge.Cnc
