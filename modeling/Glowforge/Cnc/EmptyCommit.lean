import Glowforge.Cnc.Waypoint
import Glowforge.Foundation.Ledger

/-! What a start commits on. A start tests the ring for data before it takes
`pulsebuf_lock`, and loads the tail under it. As long as no copy and no clear leaves the
ring empty in between, a run is committed with data in the ring. -/
namespace Glowforge.Cnc
open Foundation Sdma

def Pulsebuf.Unplayed (b : Pulsebuf) : Prop := b.fifo.inIndex ≠ b.player.head

instance (b : Pulsebuf) : Decidable b.Unplayed := inferInstanceAs (Decidable (_ ≠ _))

def StartPc.tested : StartPc → Bool
  | .empty _ => false
  | pc => pc.sampled.isSome

def Call.tested : Call → Bool
  | .start _ pc => pc.tested
  | _ => false

/-- A section that leaves the ring empty: a data clear, and a copy that brings `kfifo.in`
to the script's head. A clear that fails to load the script leaves its head. -/
def Driver.empties (d : Driver) : Call → Move → Bool
  | .clear true _ .clear, .next ok => ok || decide (d.buf.player.head = 0)
  | .write data .copy, .copied .all =>
      decide (data.length ≤ d.buf.fifo.avail.toNat ∧
        d.buf.fifo.inIndex + BitVec.ofNat 32 data.length = d.buf.player.head)
  | _, _ => false

theorem StartPc.holds_or_waits {pc : StartPc} (h : pc.tested = true) :
    pc.holds = true ∨ ∃ gen, pc = .verify gen ∨ pc = .lock gen := by
  cases pc with
  | verify gen => exact .inr ⟨gen, .inl rfl⟩
  | lock gen => exact .inr ⟨gen, .inr rfl⟩
  | _ => first | exact .inl rfl | cases h

theorem StartPc.overtaken_of_running {pc : StartPc} {d : Driver} (h : pc.tested = true)
    (hrun : d.status.state = .running) : pc.Overtaken d := by
  cases pc <;> first | exact .inl hrun | cases h

namespace Call

variable {i : Nat} {d d' : Driver} {p p' : Call} {o : List Notice} {move : Move}

theorem tested_of_offRing (h : p.offRing = true) : p.tested = false := by
  cases p with
  | start opts pc => cases h
  | _ => rfl

theorem tested_of_begins (h : Begins move p) : p.tested = false := by
  cases h with
  | offRing hp => exact tested_of_offRing hp
  | start hcall => rfl
  | write hlen => rfl
  | clear data position => rfl

theorem StartStep.ends {opts : CncRunOptions} {ok : Bool} {pc : StartPc}
    (h : StartStep i d opts ok pc o d' p') :
    d'.buf.fifo.inIndex = d.buf.fifo.inIndex ∧ d'.buf.player.head = d.buf.player.head := by
  constructor
  · cases h with
    | noData hbuf => rcases hbuf with rfl | rfl <;> rfl
    | measured hbuf hadmits hreach => rcases hbuf with rfl | rfl <;> rfl
    | tooLong hbuf => rcases hbuf with rfl | rfl <;> rfl
    | powerEnable => cases ok <;> rfl
    | supplyDisable => cases ok <;> rfl
    | committed hclear hgen hstate =>
        rw [show (d.commit opts).buf = d.buf from congrArg Aside.buf (Driver.aside_commit d opts)]
    | _ => rfl
  · apply h.rewritten.word
    intro hmem
    have hloads : (Call.start opts pc).loads ⊆ [20, 29, 30, 31] := by
      cases pc with
      | regs gen => exact (by decide : ([29, 30, 31] : List Word) ⊆ [20, 29, 30, 31])
      | inhibit gen => exact (by decide : ([20] : List Word) ⊆ [20, 29, 30, 31])
      | _ => exact List.nil_subset _
    exact absurd (hloads hmem) (by decide)

theorem WriteStep.ends {data : List Byte} {ok : Bool} {pc : WritePc}
    (h : WriteStep i d data ok pc o d' p') :
    d'.buf.fifo.inIndex = d.buf.fifo.inIndex ∧ d'.buf.player.head = d.buf.player.head := by
  constructor
  · cases h <;> rfl
  · apply h.rewritten.word
    cases pc with
    | publish => exact (by decide : (28 : Word) ∉ [29])
    | _ => exact List.not_mem_nil

theorem ClearStep.ends {data position ok : Bool} {pc : ClearPc}
    (h : ClearStep i d data position ok pc o d' p') (hpart : ¬(data = true ∧ pc = .clear)) :
    d'.buf.fifo.inIndex = d.buf.fifo.inIndex ∧ d'.buf.player.head = d.buf.player.head := by
  have hkeeps (hpc : pc = .clear) : data = false :=
    Bool.eq_false_iff.mpr fun hdata => hpart ⟨hdata, hpc⟩
  constructor
  · cases h with
    | cleared hc =>
        rw [hkeeps rfl]
        rfl
    | clearFailed hok =>
        rw [hkeeps rfl]
        rfl
    | _ => rfl
  · apply h.rewritten.word
    cases pc with
    | clear =>
        rw [hkeeps rfl]
        cases position
        · exact List.not_mem_nil
        · exact (by decide : (28 : Word) ∉ clearWords false true)
    | _ => exact List.not_mem_nil

private theorem inIndex_of_fault {data : List Byte} {n : Nat} {spill : List Byte} {r : Outcome}
    (h : stepCopy d data (.fault n spill) = some r) :
    r.2.1.buf.fifo.inIndex = d.buf.fifo.inIndex := by
  simp only [stepCopy] at h
  split at h
  · cases h
    change d.buf.fifo.inIndex + BitVec.ofNat 32 n - BitVec.ofNat 32 n = d.buf.fifo.inIndex
    rw [BitVec.add_sub_cancel]
  · cases h

theorem unplayed_of_copy {data : List Byte} {outcome : CopyOutcome} {r : Outcome}
    (h : stepCopy d data outcome = some r) (hdata : d.buf.Unplayed)
    (hstays : d.empties (.write data .copy) (.copied outcome) = false) : r.2.1.buf.Unplayed := by
  have hcopy := (copyStep_of_step h).2
  have hhead : r.2.1.buf.player.head = d.buf.player.head :=
    (hcopy.rewritten []).word List.not_mem_nil
  unfold Pulsebuf.Unplayed
  rw [hhead]
  cases outcome with
  | fault n spill =>
      rw [inIndex_of_fault h]
      exact hdata
  | all =>
      generalize r.2.1 = d' at hcopy ⊢
      generalize r.2.2 = p' at hcopy
      cases hcopy with
      | copied hfit hc => exact fun heq => of_decide_eq_false hstays ⟨hfit, heq⟩
      | rolledBack bs e hfit hc => exact hdata

theorem unplayed_of_clear {data position ok : Bool} {pc : ClearPc} {r : Outcome}
    (h : stepClear i d data position ok pc = some r) (hdata : d.buf.Unplayed)
    (hstays : d.empties (.clear data position pc) (.next ok) = false) : r.2.1.buf.Unplayed := by
  have hclear := clearStep_of_step h
  by_cases hwhole : data = true ∧ pc = .clear
  · obtain ⟨rfl, rfl⟩ := hwhole
    obtain ⟨hfails, hhead⟩ := (Bool.or_eq_false_iff).mp hstays
    subst hfails
    cases h
    exact Ne.symm (of_decide_eq_false hhead)
  · obtain ⟨hin, hhead⟩ := hclear.ends hwhole
    unfold Pulsebuf.Unplayed
    rw [hin, hhead]
    exact hdata

theorem unplayed_of_next {r : Outcome} (h : next i d p move = some r) (hdata : d.buf.Unplayed)
    (hstays : d.empties p move = false) : r.2.1.buf.Unplayed := by
  have hkept {d' : Driver} (hends : d'.buf.fifo.inIndex = d.buf.fifo.inIndex ∧
      d'.buf.player.head = d.buf.player.head) : d'.buf.Unplayed := by
    unfold Pulsebuf.Unplayed
    rw [hends.1, hends.2]
    exact hdata
  have hnextStep : NextStep i d p move r.1 r.2.1 r.2.2 := nextStep_of_next h
  obtain ⟨o, d', p'⟩ := r
  cases hnextStep with
  | begin hbegin => exact hdata
  | invalid e => exact hdata
  | start hstep => exact hkept hstep.ends
  | write hstep => exact hkept hstep.ends
  | copy hstep => exact unplayed_of_copy h hdata hstays
  | clear hstep => exact unplayed_of_clear h hdata hstays
  | offRing hp hp' hsupply =>
      have hbuf : d'.buf = d.buf := hsupply.buf
      exact hkept (by rw [hbuf]; exact ⟨rfl, rfl⟩)

theorem holds_of_empties (h : d.empties p move = true) : p.holds = true := by
  unfold Driver.empties at h
  split at h
  · rfl
  · rfl
  · cases h

theorem StartStep.tested {opts : CncRunOptions} {ok : Bool} {pc : StartPc}
    (h : StartStep i d opts ok pc o d' p') (hp : p'.tested = true) :
    pc.tested = true ∨ d'.buf.Unplayed := by
  cases h with
  | hasData hdata =>
      apply Or.inr
      intro heq
      have hsame : (d.buf.fifo.inIndex == d.buf.player.head) = false := hdata
      rw [show d.buf.fifo.inIndex = d.buf.player.head from heq, beq_self_eq_true] at hsame
      cases hsame
  | verified => exact .inl rfl
  | locked hfree => exact .inl rfl
  | measured hbuf hadmits hreach => exact .inl rfl
  | regs => exact .inl rfl
  | inhibit => exact .inl rfl
  | mailbox => exact .inl rfl
  | wasPowered => exact .inl rfl
  | powerCheck => exact .inl rfl
  | powerEnable => exact .inl rfl
  | powerPins => exact .inl rfl
  | duty => exact .inl rfl
  | _ => cases hp

theorem StartStep.idle_of_returned {opts : CncRunOptions} {ok : Bool} {pc : StartPc}
    {e : Option Errno} (h : StartStep i d opts ok pc o d' p') (hmem : .returned e ∈ o) :
    p' = .idle := by
  cases h with
  | committed hclear hgen hstate => exact absurd hmem (by simp)
  | _ => first | rfl | cases hmem

theorem StartStep.commits {opts opts' : CncRunOptions} {ok : Bool} {pc pc' : StartPc}
    (h : StartStep i d opts ok pc o d' p') (hp : p' = .start opts' pc') :
    Line.commits o = true ↔ ∃ was, pc' = .unlock was none := by
  cases h with
  | committed hclear hgen hstate =>
      cases hp
      exact ⟨fun _ => ⟨_, rfl⟩, fun _ => rfl⟩
  | powerPins =>
      cases hp
      cases opts.preservePower <;> simp [Line.commits]
  | _ => cases hp <;> simp [Line.commits]

theorem StartStep.returned_none_iff {opts : CncRunOptions} {ok : Bool} {pc : StartPc}
    {e : Option Errno} (h : StartStep i d opts ok pc o d' p') (hmem : .returned e ∈ o) :
    e = none ↔ ∃ was, pc = .unlock was none := by
  cases h with
  | @returned was e' =>
      obtain rfl : e = e' := by simpa using hmem
      simp
  | _ => simp_all

end Call

namespace Threads

/-- No section empties the ring under a start that waits for `pulsebuf_lock` with its
test behind it, and no start sleeps through `2 ^ 32` stops. -/
structure Undrained (T : Threads) (a : Action) : Prop where
  stays : ∀ i move, a = .thread i move → T.shared.empties (T.threads i) move = true →
    ∀ j opts gen, T.threads j = .start opts (.verify gen) ∨ T.threads j = .start opts (.lock gen) →
      T.shared.status.state = .running ∨ gen ≠ T.shared.stopGeneration
  fresh : ∀ j gen, (T.threads j).sampled = some gen → gen ≠ T.shared.stopGeneration + 1

/-- Each start that has tested the ring finds data in it, or does not commit any more. -/
def Fed (T : Threads) : Prop :=
  ∀ i opts pc, T.threads i = .start opts pc → pc.tested = true →
    pc.Overtaken T.shared ∨ T.shared.buf.Unplayed

private theorem ends_of_around {d : Driver} {event : Surrounding} {r : List Notice × Driver}
    (h : d.around event = some r) (htick : ∀ fuel, event ≠ .tick fuel) (hdata : d.buf.Unplayed) :
    r.2.buf.Unplayed := by
  rcases Driver.around_aside h htick with haside | haside
  · rw [show r.2.buf = d.buf from congrArg Aside.buf haside]
    exact hdata
  · rw [show r.2.buf = d.buf.synced from congrArg Aside.buf haside]
    exact hdata

theorem Fed.step {T : Threads} {a : Action} {r : List Notice × Threads} (h : Fed T)
    (hlocked : Locked T) (hscoped : T.shared.control.RunScoped) (hguard : Undrained T a)
    (hstep : T.step a = some r) : Fed r.2 := by
  have hkept {j : Nat} {opts : CncRunOptions} {pc : StartPc} (hj : T.threads j = .start opts pc)
      (hover : pc.Overtaken T.shared) : pc.Overtaken r.2.shared := by
    apply overtaken_kept hover (step_simulated hstep)
    intro gen hgen
    apply hguard.fresh j
    rw [hj]
    exact hgen
  cases a with
  | surround event =>
      obtain ⟨d, haround, hr⟩ := Pool.step_surround hstep
      intro j opts pc hj hpc
      have hj' : T.threads j = .start opts pc := by
        rw [hr] at hj
        exact hj
      rcases h j opts pc hj' hpc with hover | hdata
      · exact .inl (hkept hj' hover)
      · by_cases htick : ∃ fuel, event = .tick fuel
        · obtain ⟨fuel, rfl⟩ := htick
          have hrun : T.shared.status.state = .running := hscoped.running_of_tick haround
          exact .inl (hkept hj' (StartPc.overtaken_of_running hpc hrun))
        · rw [hr]
          exact .inr (ends_of_around haround (fun fuel heq => htick ⟨fuel, heq⟩) hdata)
  | thread i move =>
      obtain ⟨d, p, hnext, hr⟩ := Pool.step_thread hstep
      have hnextStep : Call.NextStep i T.shared (T.threads i) move r.1 d p :=
        Call.nextStep_of_next hnext
      intro j opts pc hj hpc
      by_cases hji : j = i
      · subst hji
        have hp : p = .start opts pc := by
          rw [hr] at hj
          exact (Function.update_self _ _ _).symm.trans hj
        have htested : p.tested = true := by
          rw [hp]
          exact hpc
        have hsame : r.2.shared = d := by rw [hr]
        rw [hsame]
        generalize hthread : T.threads j = q at hnextStep hnext
        generalize r.1 = o at hnextStep hnext
        cases hnextStep with
        | begin hbegin =>
            rw [Call.tested_of_begins hbegin] at htested
            cases htested
        | invalid e => cases htested
        | @start opts' pc' ok o d' p' hstart =>
            rcases hstart.tested htested with hbefore | hdata
            · rcases h j opts' pc' hthread hbefore with hover | hdata
              · rcases (hstart.overtaken hover).2 with ⟨e, he⟩ | ⟨pc'', hp'', hover''⟩
                · rw [hstart.idle_of_returned he] at hp
                  cases hp
                · cases hp.symm.trans hp''
                  exact .inl hover''
              · exact .inr (Call.unplayed_of_next hnext hdata rfl)
            · exact .inr hdata
        | write hwrite => cases hwrite <;> cases htested
        | copy hcopy => cases hcopy <;> cases htested
        | clear hclear => cases hclear <;> cases htested
        | offRing hq hp' hsupply =>
            rcases hp' with rfl | hp'
            · cases htested
            · rw [Call.tested_of_offRing hp'] at htested
              cases htested
      · have hj' : T.threads j = .start opts pc := by
          rw [hr] at hj
          exact (Function.update_of_ne hji _ _).symm.trans hj
        rcases h j opts pc hj' hpc with hover | hdata
        · exact .inl (hkept hj' hover)
        · by_cases hempties : T.shared.empties (T.threads i) move = true
          · -- the lock keeps the ring as it is from there on
            rcases StartPc.holds_or_waits hpc with hholds | ⟨gen, hwaits⟩
            · have hself : (T.threads j).holds = true := by
                rw [hj']
                exact hholds
              exact absurd (Pool.Owned.exclusive hlocked hself (Call.holds_of_empties hempties)) hji
            · have hpassed : T.shared.status.state = .running ∨ gen ≠ T.shared.stopGeneration := by
                apply hguard.stays i move rfl hempties j opts gen
                rcases hwaits with rfl | rfl
                · exact .inl hj'
                · exact .inr hj'
              apply Or.inl
              apply hkept hj'
              rcases hwaits with rfl | rfl
              · exact hpassed.imp id fun hne heq => hne (Option.some.inj heq)
              · exact hpassed.imp id fun hne heq => hne (Option.some.inj heq)
          · rw [hr]
            exact .inr (Call.unplayed_of_next hnext hdata (Bool.eq_false_iff.mpr hempties))

end Threads

/-- The threads, with which of them has a start that has committed. -/
abbrev Starts := Logged Threads (Nat → Bool)

namespace Starts

def enterCommit (committed : Nat → Bool) (a : Threads.Action) (o : List Notice) : Nat → Bool :=
  match a with
  | .thread i (.start _) => Function.update committed i false
  | .thread i _ => Function.update committed i (committed i || Line.commits o)
  | .surround _ => committed

def step : Starts → Threads.Action → Option (List Notice × Starts) :=
  Logged.step Threads.step fun committed _ a r => enterCommit committed a r.1

def probe (ringMb : Nat) (args : ScriptArgs) (lines : PinId → Bool) (railOn : Bool) : Starts :=
  ⟨.probe ringMb args lines railOn, fun _ => false⟩

/-- What `cnc_run` and `cnc_resume` owe their callers at a step: the commit finds data in
the ring, 0 comes back from a start that has committed and an error from one that has not,
and nothing but a commit takes the driver into RUNNING. -/
structure Answered (L : Starts) (a : Threads.Action) : Prop where
  data : ∀ q opts, L.state.step a = some q → .committed opts ∈ q.1 → L.state.shared.buf.Unplayed
  told : ∀ i ok opts pc q e, a = .thread i (.next ok) → L.state.threads i = .start opts pc →
    L.state.step a = some q → .returned e ∈ q.1 → (e = none ↔ L.ledger i = true)
  invalid : ∀ i call q e, a = .thread i (.start call) → L.state.step a = some q →
    .returned e ∈ q.1 → e ≠ none
  rests : ∀ q, L.state.step a = some q → q.2.shared.status.state = .running →
    L.state.shared.status.state = .running ∨ ∃ opts, .committed opts ∈ q.1

def Entered (L : Starts) : Prop :=
  ∀ i opts pc, L.state.threads i = .start opts pc →
    (L.ledger i = true ↔ ∃ was, pc = .unlock was none)

theorem Entered.step {L : Starts} {a : Threads.Action} {r : List Notice × Starts}
    (h : Entered L) (hstep : L.step a = some r) : Entered r.2 := by
  obtain ⟨T, hT, hr⟩ := Logged.step_state hstep
  rw [hr]
  cases a with
  | surround event =>
      obtain ⟨d, -, rfl⟩ := Pool.step_surround hT
      exact h
  | thread i move =>
      obtain ⟨d, p, hnext, rfl⟩ := Pool.step_thread hT
      intro j opts pc hj
      by_cases hji : j = i
      · subst hji
        have hp : p = .start opts pc := (Function.update_self _ _ _).symm.trans hj
        have hnextStep : Call.NextStep j L.state.shared (L.state.threads j) move r.1 d p :=
          Call.nextStep_of_next hnext
        change enterCommit L.ledger (.thread j move) r.1 j = true ↔ _
        generalize hthread : L.state.threads j = q at hnextStep
        generalize r.1 = o at hnextStep ⊢
        cases hnextStep with
        | begin hbegin =>
            cases hbegin with
            | start hcall =>
                cases hp
                simp [enterCommit]
            | offRing hoff =>
                rw [hp] at hoff
                cases hoff
            | write hlen => cases hp
            | clear data position => cases hp
        | invalid e => cases hp
        | @start opts' pc' ok o d' p' hstart =>
            have hbefore := h j opts' pc' hthread
            rw [← hstart.commits hp]
            change Function.update L.ledger j (L.ledger j || Line.commits o) j = true ↔ _
            rw [Function.update_self, Bool.or_eq_true]
            apply or_iff_right
            intro hcommitted
            obtain ⟨was, rfl⟩ := hbefore.mp hcommitted
            cases hstart with
            | returned => cases hp
            | undo herr => cases herr
        | write hwrite => cases hwrite <;> cases hp
        | copy hcopy => cases hcopy <;> cases hp
        | clear hclear => cases hclear <;> cases hp
        | offRing hq hp' hsupply =>
            rcases hp' with rfl | hp'
            · cases hp
            · rw [hp] at hp'
              cases hp'
      · have hother : enterCommit L.ledger (.thread i move) r.1 j = L.ledger j := by
          cases move <;> exact Function.update_of_ne hji _ _
        change enterCommit L.ledger (.thread i move) r.1 j = true ↔ _
        rw [hother]
        exact h j opts pc ((Function.update_of_ne hji _ _).symm.trans hj)

theorem unplayed_of_committed {T : Threads} {a : Threads.Action} {q : List Notice × Threads}
    {opts : CncRunOptions} (h : Threads.Fed T) (hstep : T.step a = some q)
    (hmem : .committed opts ∈ q.1) : T.shared.buf.Unplayed := by
  cases a with
  | surround event =>
      obtain ⟨d, haround, -⟩ := Pool.step_surround hstep
      exact absurd hmem (Driver.notMem_of_around haround rfl)
  | thread i move =>
      obtain ⟨d, p, hnext, -⟩ := Pool.step_thread hstep
      obtain ⟨gen, was, hp, -, hgen, hstate, -⟩ := Call.next_committed hnext hmem
      rcases h i opts _ hp rfl with hover | hdata
      · rcases hover with hrun | hmoved
        · rw [hrun] at hstate
          rcases hstate with hstate | hstate <;> cases hstate
        · exact absurd (congrArg some hgen.symm) hmoved
      · exact hdata

theorem answered {L : Starts} (hfed : Threads.Fed L.state) (hentered : Entered L)
    (a : Threads.Action) : Answered L a where
  data q opts hstep hmem := unplayed_of_committed hfed hstep hmem
  told := by
    rintro i ok opts pc q e rfl hthread hstep hmem
    obtain ⟨d, p, hnext, -⟩ := Pool.step_thread hstep
    have hnextStep : Call.NextStep i L.state.shared (L.state.threads i) (.next ok) q.1 d p :=
      Call.nextStep_of_next hnext
    rw [hthread] at hnextStep
    rw [hentered i opts pc hthread]
    generalize q.1 = o at hnextStep hmem
    cases hnextStep with
    | start hstart => exact hstart.returned_none_iff hmem
    | offRing hp hp' hsupply => cases hp
  invalid := by
    rintro i call q e rfl hstep hmem rfl
    obtain ⟨d, p, hnext, -⟩ := Pool.step_thread hstep
    have hnextStep : Call.NextStep i L.state.shared (L.state.threads i) (.start call) q.1 d p :=
      Call.nextStep_of_next hnext
    generalize L.state.threads i = c at hnextStep
    generalize q.1 = o at hnextStep hmem
    cases hnextStep with
    | begin hbegin => cases hmem
    | invalid e => simp at hmem
  rests := by
    intro q hstep hrun
    rcases Control.Step.running (Threads.step_simulated hstep) hrun with hbefore | ⟨opts, hmem⟩
    · exact .inl hbefore
    · exact .inr ⟨opts, (List.mem_filter.mp hmem).1⟩

/-- In every run in which no copy and no clear empties the ring under a start that has
tested it and waits for the lock, `cnc_run` and `cnc_resume` answer for their runs: each
commit finds data in the ring, 0 is returned by the starts that have committed alone, and
the others leave a driver that does not run not running. -/
theorem committed_run_has_data {ringMb : Nat} {args : ScriptArgs} {lines : PinId → Bool}
    {railOn : Bool} {as : List Threads.Action}
    (hguard : System.Along Threads.step Threads.Undrained as (.probe ringMb args lines railOn)) :
    System.Along step Answered as (probe ringMb args lines railOn) := by
  have hlifted : System.Along step (fun L a => Threads.Undrained L.state a) as
      (probe ringMb args lines railOn) := Logged.along_state hguard
  have hboth := hlifted.invariant (I := fun L => (Threads.Fed L.state ∧ Threads.Locked L.state ∧
    L.state.shared.control.RunScoped) ∧ Entered L) ?_ ?_
  · apply hboth.mono
    rintro L a ⟨-, ⟨hfed, -, -⟩, hentered⟩
    exact answered hfed hentered a
  · rintro L a r ⟨⟨hfed, hlocked, hscoped⟩, hentered⟩ hundrained hstep
    obtain ⟨T, hT, hr⟩ := Logged.step_state hstep
    have hentered' : Entered r.2 := hentered.step hstep
    refine ⟨?_, hentered'⟩
    rw [hr]
    exact ⟨hfed.step hlocked hscoped hundrained hT, hlocked.step hT,
      hscoped.step (Threads.step_simulated hT)⟩
  · refine ⟨⟨?_, Threads.locked_probe ringMb args lines railOn,
      Threads.runScoped_probe ringMb args lines railOn⟩, ?_⟩
    · intro i opts pc hthread
      cases hthread
    · intro i opts pc hthread
      cases hthread

/-- A start finds the one byte of the ring and comes to the lock; a clear takes the lock
first and drops the byte. -/
private def emptiedWhileWaiting : List Threads.Action :=
  Threads.callWrite 0 [0] ++ Threads.call 1 (.start .run) 4 ++
    Threads.call 2 (.clear true false) 4 ++ List.replicate 10 (.thread 1 (.next true))

theorem committed_run_has_data_false :
    ¬∀ (ringMb : Nat) (args : ScriptArgs) (lines : PinId → Bool) (railOn : Bool)
      (as : List Threads.Action), System.Along step Answered as (probe ringMb args lines railOn) := by
  intro h
  have hrun : ((System.execute step emptiedWhileWaiting ⟨Threads.bench, fun _ => false⟩).bind
      fun r => (r.2.state.step (.thread 1 (.next true))).map fun q =>
        (decide r.2.state.shared.buf.Unplayed, q.1)) =
      some (false, [.committed cncRun]) := by decide +kernel
  obtain ⟨r, hexec, hrest⟩ := Option.bind_eq_some_iff.mp hrun
  obtain ⟨q, hstep, hseen⟩ := Option.map_eq_some_iff.mp hrest
  injection hseen with hempty hcommit
  have halong := h 1 (.over fun _ => 0) (fun _ => true) false
    (emptiedWhileWaiting ++ [.thread 1 (.next true)])
  have hlast := (halong.split hexec).2.1
  exact absurd (hlast.data q cncRun hstep (by rw [hcommit]; exact List.mem_cons_self))
    (of_decide_eq_false hempty)

private def undrained (T : Threads) (a : Threads.Action) : Bool :=
  (match a with
    | .thread i move => !T.shared.empties (T.threads i) move
    | .surround _ => true) &&
  [0, 1, 2].all fun j : Nat =>
    decide ((T.threads j).sampled ≠ some (T.shared.stopGeneration + 1))

private theorem undrained_of_test {T : Threads} {a : Threads.Action} (h : undrained T a = true)
    (honly : Threads.OnlyThreads [0, 1, 2] T) : Threads.Undrained T a := by
  obtain ⟨hstays, hfresh⟩ := (Bool.and_eq_true _ _).mp h
  constructor
  · rintro i move rfl hempties
    simp [hempties] at hstays
  · rintro j gen hgen rfl
    by_cases hj : j ∈ [0, 1, 2]
    · exact of_decide_eq_true (List.all_eq_true.mp hfresh j hj) hgen
    · rw [honly j hj] at hgen
      cases hgen

/-- The positions are cleared under a start that waits for the lock; it commits on its byte. -/
theorem committed_run_has_data_positionCleared :
    System.Along step Answered (Threads.callWrite 0 [0] ++ Threads.call 1 (.start .run) 4 ++
      Threads.call 2 (.clear false true) 4 ++ List.replicate 12 (.thread 1 (.next true)))
      (probe 1 (.over fun _ => 0) (fun _ => true) false) := by
  apply committed_run_has_data
  have hguard := @Threads.along_onlyThreads [0, 1, 2] undrained
    (Threads.callWrite 0 [0] ++ Threads.call 1 (.start .run) 4 ++
      Threads.call 2 (.clear false true) 4 ++ List.replicate 12 (.thread 1 (.next true)))
    Threads.bench (Threads.onlyThreads_bench _) (by decide +kernel)
  exact hguard.mono fun T a ha => undrained_of_test ha.1 ha.2

end Starts

end Glowforge.Cnc
