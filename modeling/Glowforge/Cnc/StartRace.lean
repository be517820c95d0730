import Glowforge.Cnc.SupplyRail

/-! Starts that race. A start checks the state, sleeps, and checks it again at its
commit; in between it writes the registers of the script under `pulsebuf_lock`. As long
as no start takes that lock to go on during a run, and none undoes its power-on then, a
run keeps its registers, its mailbox, its duty and its pins from the other starts. -/
namespace Glowforge.Cnc
open Foundation Sdma

/-- What a run in flight goes by. -/
structure RunData where
  tail : Word
  dir : Word
  waypoint : Word
  inhibit : Word
  mailbox : Word
  duty : BitVec 16
  pins : List Pin
  deriving DecidableEq, Repr

def stepDirPins : List PinId :=
  [.xStep, .xDir, .y1Step, .y1Dir, .y2Step, .y2Dir, .zStep, .zDir]

def Driver.runData (d : Driver) : RunData where
  tail := d.buf.engine.m.word 29
  dir := d.buf.engine.m.word 30
  waypoint := d.buf.engine.m.word 31
  inhibit := d.buf.engine.m.word 20
  mailbox := d.sdmaMailbox
  duty := d.laserPwm
  pins := stepDirPins.map d.pins

/-- The sections of a start that write what the run goes by, up to its commit. -/
def StartPc.writes : StartPc → Bool
  | .regs _ | .inhibit _ | .mailbox _ | .wasPowered _ | .power _ _ _ | .duty _ _ | .commit _ _ => true
  | _ => false

/-- The `stop_generation` a start has sampled, up to its commit. -/
def StartPc.sampled : StartPc → Option Word
  | .empty gen | .verify gen | .lock gen | .length gen | .regs gen | .inhibit gen | .mailbox gen
  | .wasPowered gen | .power gen _ _ | .duty gen _ | .commit gen _ => some gen
  | _ => none

def Call.writes : Call → Bool
  | .start _ pc => pc.writes
  | _ => false

def Call.sampled : Call → Option Word
  | .start _ pc => pc.sampled
  | _ => none

def Refuses (o : List Notice) : Prop :=
  (∀ opts, .committed opts ∉ o) ∧ ∀ e, .returned e ∈ o → e ≠ none

/-- The call can no longer commit: the driver runs or was stopped since the sample, or
the call is already on its way out with an error. -/
def StartPc.Overtaken (d : Driver) : StartPc → Prop
  | .check | .sample => False
  | .unlock _ ret => ret ≠ none
  | .refuse _ | .supplyOff _ | .pinsOff => True
  | pc => d.status.state = .running ∨ pc.sampled ≠ some d.stopGeneration

namespace Control

theorem Step.leaves {c c' : Control} {o : List Notice} (h : Step c o c')
    (hrun : c.status.state = .running) :
    c'.status.state = .running ∨ c'.stopGeneration = c.stopGeneration + 1 := by
  cases h with
  | stop nextState hfrom hnext => exact .inr (stop_stopGeneration c nextState)
  | fault hstate =>
      rw [stop_stopGeneration, latchFaults_stopGeneration]
      exact .inr rfl
  | commit opts hclear hstate =>
      rw [hrun] at hstate
      rcases hstate with hstate | hstate <;> cases hstate
  | enable hclear hstate =>
      rw [hrun] at hstate
      rcases hstate with hstate | hstate <;> cases hstate
  | acknowledge hstate =>
      rw [hrun] at hstate
      cases hstate
  | latch hstate =>
      rw [hrun] at hstate
      cases hstate
  | decelerate hrun' => exact .inl ((decelerate_state c).trans hrun)
  | waypoint harmed => exact .inl ((waypoint_state c).trans hrun)
  | unlock =>
      rw [unlock_status]
      exact .inl hrun
  | _ => exact .inl hrun

end Control

namespace Call

variable {i : Nat} {d d' : Driver} {p p' : Call} {o : List Notice} {move : Move}

theorem writes_holds (h : p.writes = true) : p.holds = true := by
  cases p with
  | start opts pc => cases pc <;> first | rfl | cases h
  | _ => cases h

theorem writes_of_offRing (h : p.offRing = true) : p.writes = false := by
  cases p with
  | start opts pc => cases h
  | _ => rfl

theorem writes_of_begins (h : Begins move p) : p.writes = false := by
  cases h with
  | offRing hp => exact writes_of_offRing hp
  | start hcall => rfl
  | write hlen => rfl
  | clear data position => rfl

theorem StartStep.writes {opts : CncRunOptions} {ok : Bool} {pc : StartPc}
    (h : StartStep i d opts ok pc o d' p') (hp : p'.writes = true) :
    pc.writes = true ∨ ∃ gen, pc = .length gen ∧ d.admits opts ok := by
  cases h with
  | measured hbuf hadmits hreach => exact .inr ⟨_, rfl, hadmits⟩
  | regs => exact .inl rfl
  | inhibit => exact .inl rfl
  | mailbox => exact .inl rfl
  | wasPowered => exact .inl rfl
  | powerCheck => exact .inl rfl
  | powerEnable => exact .inl rfl
  | powerPins => exact .inl rfl
  | duty => exact .inl rfl
  | _ => cases hp

/-- While the driver runs, a start that does not write leaves what the run goes by, but
for its undoing; and unless it is the one that committed, it is refused. -/
theorem StartStep.leaves_run {opts : CncRunOptions} {ok : Bool} {pc : StartPc}
    (h : StartStep i d opts ok pc o d' p') (hrun : d.status.state = .running)
    (hwrites : pc.writes = false) (hundo : pc ≠ .pinsOff) (hother : ∀ was, pc ≠ .unlock was none) :
    d'.runData = d.runData ∧ Refuses o := by
  have hquiet : Refuses [] := ⟨fun opts => List.not_mem_nil, fun e he => absurd he List.not_mem_nil⟩
  have herror (e : Errno) : Refuses [.returned (some e)] := by
    refine ⟨fun opts => by simp, ?_⟩
    rintro e' he' rfl
    simp at he'
  cases h with
  | checked hstate =>
      rw [hrun] at hstate
      rcases hstate with hstate | hstate <;> cases hstate
  | turnedAway hstate => exact ⟨rfl, herror _⟩
  | noData hbuf => rcases hbuf with rfl | rfl <;> exact ⟨rfl, herror _⟩
  | unverified => exact ⟨rfl, herror _⟩
  | tooLong hbuf => rcases hbuf with rfl | rfl <;> exact ⟨rfl, hquiet⟩
  | measured hbuf hadmits hreach => rcases hbuf with rfl | rfl <;> exact ⟨rfl, hquiet⟩
  | @returned was e =>
      refine ⟨rfl, fun opts => by simp, ?_⟩
      rintro e' he' rfl
      have : none = e := by simpa using he'
      exact hother was (by rw [this])
  | refused => exact ⟨rfl, herror _⟩
  | supplyDisable => cases ok <;> exact ⟨rfl, hquiet⟩
  | pinsOff => exact absurd rfl hundo
  | sampled => exact ⟨rfl, hquiet⟩
  | hasData hdata => exact ⟨rfl, hquiet⟩
  | verified => exact ⟨rfl, hquiet⟩
  | locked hfree => exact ⟨rfl, hquiet⟩
  | undo herr => exact ⟨rfl, hquiet⟩
  | supplyCheck => exact ⟨rfl, hquiet⟩
  | supplyIsOff => exact ⟨rfl, hquiet⟩
  | _ => cases hwrites

theorem StartStep.overtaken {opts : CncRunOptions} {ok : Bool} {pc : StartPc}
    (h : StartStep i d opts ok pc o d' p') (hover : pc.Overtaken d) :
    Refuses o ∧ ((∃ e, .returned e ∈ o) ∨ ∃ pc', p' = .start opts pc' ∧ pc'.Overtaken d') := by
  have hquiet : Refuses [] := ⟨fun opts => List.not_mem_nil, fun e he => absurd he List.not_mem_nil⟩
  have herror (e : Errno) : Refuses [.returned (some e)] := by
    refine ⟨fun opts => by simp, ?_⟩
    rintro e' he' rfl
    simp at he'
  have hback (e : Option Errno) : ∃ e', Notice.returned e' ∈ [Notice.returned e] :=
    ⟨e, List.mem_cons_self⟩
  cases h with
  | turnedAway hstate => exact hover.elim
  | checked hstate => exact hover.elim
  | sampled => exact hover.elim
  | noData hbuf => exact ⟨herror _, .inl (hback _)⟩
  | unverified => exact ⟨herror _, .inl (hback _)⟩
  | refused => exact ⟨herror _, .inl (hback _)⟩
  | pinsOff => exact ⟨herror _, .inl (hback _)⟩
  | @returned was e =>
      refine ⟨⟨fun opts => by simp, ?_⟩, .inl (hback e)⟩
      rintro e' he' rfl
      have : none = e := by simpa using he'
      exact hover this.symm
  | undo herr => exact ⟨hquiet, .inr ⟨_, rfl, trivial⟩⟩
  | supplyCheck => exact ⟨hquiet, .inr ⟨_, rfl, trivial⟩⟩
  | supplyIsOff => exact ⟨hquiet, .inr ⟨_, rfl, trivial⟩⟩
  | supplyDisable => exact ⟨hquiet, .inr ⟨_, rfl, trivial⟩⟩
  | tooLong hbuf => exact ⟨hquiet, .inr ⟨_, rfl, trivial⟩⟩
  | regsFailed hok => exact ⟨hquiet, .inr ⟨_, rfl, trivial⟩⟩
  | inhibitFailed hok => exact ⟨hquiet, .inr ⟨_, rfl, trivial⟩⟩
  | commitRefused => exact ⟨hquiet, .inr ⟨_, rfl, by simp [StartPc.Overtaken]⟩⟩
  | committed hclear hgen hstate =>
      rcases hover with hrun | hmoved
      · rw [hrun] at hstate
        rcases hstate with hstate | hstate <;> cases hstate
      · exact absurd (congrArg some hgen.symm) hmoved
  | powerEnable => cases ok <;> exact ⟨hquiet, .inr ⟨_, rfl, hover⟩⟩
  | powerPins => cases hduty : opts.preservePower <;> exact ⟨hquiet, .inr ⟨_, rfl, hover⟩⟩
  | hasData hdata => exact ⟨hquiet, .inr ⟨_, rfl, hover⟩⟩
  | verified => exact ⟨hquiet, .inr ⟨_, rfl, hover⟩⟩
  | locked hfree => exact ⟨hquiet, .inr ⟨_, rfl, hover⟩⟩
  | measured hbuf hadmits hreach => exact ⟨hquiet, .inr ⟨_, rfl, hover⟩⟩
  | regs => exact ⟨hquiet, .inr ⟨_, rfl, hover⟩⟩
  | inhibit => exact ⟨hquiet, .inr ⟨_, rfl, hover⟩⟩
  | mailbox => exact ⟨hquiet, .inr ⟨_, rfl, hover⟩⟩
  | wasPowered => exact ⟨hquiet, .inr ⟨_, rfl, hover⟩⟩
  | powerCheck => exact ⟨hquiet, .inr ⟨_, rfl, hover⟩⟩
  | duty => exact ⟨hquiet, .inr ⟨_, rfl, hover⟩⟩

end Call

namespace Threads

/-- The steps of a run that no start crosses: none passes its length check while the
driver runs, none takes its pins down then, and none sleeps through `2 ^ 32` stops. -/
structure Uncrossed (T : Threads) (a : Action) : Prop where
  waits : ∀ i ok opts gen, a = .thread i (.next ok) → T.threads i = .start opts (.length gen) →
    T.shared.admits opts ok → T.shared.status.state ≠ .running
  undoes : ∀ i ok opts, a = .thread i (.next ok) → T.threads i = .start opts .pinsOff →
    T.shared.status.state ≠ .running
  fresh : ∀ j gen, (T.threads j).sampled = some gen → gen ≠ T.shared.stopGeneration + 1

def NoneWrites (T : Threads) : Prop :=
  ∀ i, (T.threads i).writes = true → T.shared.status.state ≠ .running

theorem running_of_around {d : Driver} {event : Surrounding} {r : List Notice × Driver}
    (h : d.around event = some r) (hrun : r.2.status.state = .running) :
    d.status.state = .running := by
  rcases Control.Step.running (Driver.around_simulated h) hrun with hbefore | ⟨opts, hmem⟩
  · exact hbefore
  · exact absurd (List.mem_filter.mp hmem).1 (Driver.notMem_of_around h rfl)

theorem running_of_next {i : Nat} {d : Driver} {p : Call} {move : Move} {r : Outcome}
    (h : Call.next i d p move = some r) (hrun : r.2.1.status.state = .running) :
    d.status.state = .running ∨ p.holds = true ∧ r.2.2.writes = false := by
  rcases Control.Step.running (Driver.next_simulated h) hrun with hbefore | ⟨opts, hmem⟩
  · exact .inl hbefore
  · obtain ⟨gen, was, hp, -, -, -, hr⟩ := Call.next_committed h (List.mem_filter.mp hmem).1
    rw [hp, hr]
    exact .inr ⟨rfl, rfl⟩

theorem NoneWrites.step {T : Threads} {a : Action} {r : List Notice × Threads}
    (h : NoneWrites T) (hlocked : Locked T)
    (hwaits : ∀ i ok opts gen, a = .thread i (.next ok) → T.threads i = .start opts (.length gen) →
      T.shared.admits opts ok → T.shared.status.state ≠ .running)
    (hstep : T.step a = some r) : NoneWrites r.2 := by
  cases a with
  | surround event =>
      obtain ⟨d, haround, hr⟩ := Pool.step_surround hstep
      rw [hr]
      intro i hi hrun
      exact h i hi (running_of_around haround hrun)
  | thread i move =>
      obtain ⟨d, p, hnext, hr⟩ := Pool.step_thread hstep
      rw [hr]
      intro j hj hrun
      have hbefore := running_of_next hnext hrun
      by_cases hji : j = i
      · subst hji
        have hj' : p.writes = true := by
          change (Function.update T.threads j p j).writes = true at hj
          rwa [Function.update_self] at hj
        -- the thread that writes did not commit, so the driver ran before
        have hran : T.shared.status.state = .running := by
          rcases hbefore with hran | ⟨-, hdone⟩
          · exact hran
          · rw [hj'] at hdone
            cases hdone
        have hnextStep : Call.NextStep j T.shared (T.threads j) move r.1 d p :=
          Call.nextStep_of_next hnext
        generalize hthread : T.threads j = q at hnextStep
        generalize r.1 = o at hnextStep
        cases hnextStep with
        | begin hbegin =>
            rw [Call.writes_of_begins hbegin] at hj'
            cases hj'
        | invalid e => cases hj'
        | @start opts pc ok o d' p' hstart =>
            rcases hstart.writes hj' with hwrites | ⟨gen, rfl, hadmits⟩
            · exact h j (by rw [hthread]; exact hwrites) hran
            · exact hwaits j ok opts gen rfl hthread hadmits hran
        | write hwrite => cases hwrite <;> cases hj'
        | copy hcopy => cases hcopy <;> cases hj'
        | clear hclear => cases hclear <;> cases hj'
        | offRing hq hp' hsupply =>
            rcases hp' with rfl | hp'
            · cases hj'
            · rw [Call.writes_of_offRing hp'] at hj'
              cases hj'
      · have hj' : (T.threads j).writes = true := by
          change (Function.update T.threads i p j).writes = true at hj
          rwa [Function.update_of_ne hji] at hj
        rcases hbefore with hran | ⟨hholds, -⟩
        · exact h j hj' hran
        · exact hji (Pool.Owned.exclusive hlocked (Call.writes_holds hj') hholds)

def Returns (i : Nat) (T : Threads) (a : Action) : Prop :=
  ∃ move r e, a = .thread i move ∧ T.step a = some r ∧ .returned e ∈ r.1

def Overtaken (i : Nat) (T : Threads) : Prop :=
  ∃ opts pc, T.threads i = .start opts pc ∧ pc.Overtaken T.shared

/-- A start is overtaken for good: leaving a run is a stop, and the counter does not come
around. -/
theorem overtaken_kept {d d' : Driver} {pc : StartPc} {o : List Notice}
    (h : pc.Overtaken d) (hsim : Driver.Simulated o d d')
    (hfresh : ∀ gen, pc.sampled = some gen → gen ≠ d.stopGeneration + 1) : pc.Overtaken d' := by
  have hlive (hsampled : pc.sampled ≠ none)
      (hover : d.status.state = .running ∨ pc.sampled ≠ some d.stopGeneration) :
      d'.status.state = .running ∨ pc.sampled ≠ some d'.stopGeneration := by
    have hbumped (hgen : d'.stopGeneration = d.stopGeneration + 1) :
        pc.sampled ≠ some d'.stopGeneration := by
      intro heq
      exact hfresh _ heq hgen
    rcases hover with hrun | hmoved
    · rcases Control.Step.leaves hsim hrun with hstays | hgen
      · exact .inl hstays
      · exact .inr (hbumped hgen)
    · rcases Control.Step.generation hsim with hsame | hgen
      · exact .inr (by rw [show d'.stopGeneration = d.stopGeneration from hsame]; exact hmoved)
      · exact .inr (hbumped hgen)
  cases pc with
  | check => exact h
  | sample => exact h
  | unlock was ret => exact h
  | refuse e => exact h
  | supplyOff pc => exact h
  | pinsOff => exact h
  | _ => exact hlive (by simp [StartPc.sampled]) h

private theorem Overtaken.step {i : Nat} {T : Threads} {a : Action} {r : List Notice × Threads}
    (h : Overtaken i T) (hguard : Uncrossed T a) (hstep : T.step a = some r) :
    (∀ ok, a = .thread i (.next ok) → Refuses r.1) ∧ (¬Returns i T a → Overtaken i r.2) := by
  obtain ⟨opts, pc, hthread, hover⟩ := h
  have hkept : Driver.Simulated r.1 T.shared r.2.shared → pc.Overtaken r.2.shared := by
    intro hsim
    apply overtaken_kept hover hsim
    intro gen hgen
    apply hguard.fresh i
    rw [hthread]
    exact hgen
  have hsim := step_simulated hstep
  cases a with
  | surround event =>
      obtain ⟨d, -, hr⟩ := Pool.step_surround hstep
      refine ⟨fun ok heq => (nomatch heq), fun _ => ⟨opts, pc, ?_, hkept hsim⟩⟩
      rw [hr]
      exact hthread
  | thread j move =>
      obtain ⟨d, p, hnext, hr⟩ := Pool.step_thread hstep
      by_cases hj : j = i
      · subst hj
        have hnextStep : Call.NextStep j T.shared (T.threads j) move r.1 d p :=
          Call.nextStep_of_next hnext
        rw [hthread] at hnextStep
        generalize hout : r.1 = o at hnextStep
        cases hnextStep with
        | offRing hp hp' hsupply => cases hp
        | @start opts pc ok o d' p' hstart =>
            obtain ⟨hrefuses, hnext'⟩ := hstart.overtaken hover
            refine ⟨fun _ _ => hrefuses, ?_⟩
            intro hreturns
            rcases hnext' with ⟨e, he⟩ | ⟨pc', hp', hover'⟩
            · exact absurd ⟨_, r, e, rfl, hstep, by rw [hout]; exact he⟩ hreturns
            · refine ⟨opts, pc', ?_, ?_⟩
              · rw [hr]
                exact (Function.update_self _ _ _).trans hp'
              · rw [hr]
                exact hover'
      · refine ⟨?_, fun _ => ⟨opts, pc, ?_, hkept hsim⟩⟩
        · intro ok heq
          injection heq with hji
          exact absurd hji hj
        · rw [hr]
          exact (Function.update_of_ne (Ne.symm hj) _ _).trans hthread

private theorem noneWrites_run {as : List Action} {T₀ : Threads} {r : List Notice × Threads}
    (hlocked : Locked T₀) (hnone : NoneWrites T₀) (hguard : System.Along step Uncrossed as T₀)
    (hexec : System.execute step as T₀ = some r) : NoneWrites r.2 := by
  have hrun := System.execute_guarded (I := fun T => Locked T ∧ NoneWrites T)
    (P := fun _ => True) (fun T a r hinv hguard hstep => ?_) ⟨hlocked, hnone⟩ hguard hexec
  · exact hrun.1.2
  · exact ⟨⟨hinv.1.step hstep, hinv.2.step hinv.1 hguard.waits hstep⟩, fun _ _ => trivial⟩

private theorem overtaken_run {i : Nat} {as : List Action} {T : Threads}
    {r : List Notice × Threads} (h : Overtaken i T)
    (hguard : System.Along step (fun T a => Uncrossed T a ∧ ¬Returns i T a) as T)
    (hexec : System.execute step as T = some r) : Overtaken i r.2 := by
  have hrun := System.execute_guarded (I := Overtaken i) (P := fun _ => True)
    (fun T a r hinv hguard hstep => ?_) h hguard hexec
  · exact hrun.1
  · exact ⟨(hinv.step hguard.1 hstep).2 hguard.2, fun _ _ => trivial⟩

/-- In every run that no start crosses, while the driver is RUNNING: each section of a
start other than the one that committed leaves what the run goes by, and neither commits
nor returns a success; and a start that has sampled `stop_generation` by then never does,
whatever happens until it returns. -/
theorem other_starts_leave_run_alone {ringMb : Nat} {args : ScriptArgs} {lines : PinId → Bool}
    {railOn : Bool} {as : List Action} {r : List Notice × Threads}
    (hexec : System.execute step as (probe ringMb args lines railOn) = some r)
    (hguard : System.Along step Uncrossed as (probe ringMb args lines railOn))
    (hrun : r.2.shared.status.state = .running) {i : Nat} {opts : CncRunOptions} {pc : StartPc}
    (hthread : r.2.threads i = .start opts pc) (hother : ∀ was, pc ≠ .unlock was none) :
    (∀ ok q, Uncrossed r.2 (.thread i (.next ok)) → r.2.step (.thread i (.next ok)) = some q →
      q.2.shared.runData = r.2.shared.runData ∧ Refuses q.1) ∧
    (pc.sampled ≠ none → ∀ as' r', System.execute step as' r.2 = some r' →
      System.Along step (fun T a => Uncrossed T a ∧ ¬Returns i T a) as' r.2 →
      ∀ ok q, Uncrossed r'.2 (.thread i (.next ok)) → r'.2.step (.thread i (.next ok)) = some q →
        Refuses q.1) := by
  have hnone : NoneWrites r.2 := by
    apply noneWrites_run (locked_probe ringMb args lines railOn) _ hguard hexec
    intro i hi
    cases hi
  have hwrites : pc.writes = false := by
    apply Bool.eq_false_iff.mpr
    intro hw
    exact hnone i (by rw [hthread]; exact hw) hrun
  constructor
  · intro ok q hq hstep
    obtain ⟨d, p, hnext, hr⟩ := Pool.step_thread hstep
    have hnextStep : Call.NextStep i r.2.shared (r.2.threads i) (.next ok) q.1 d p :=
      Call.nextStep_of_next hnext
    rw [hthread] at hnextStep
    rw [hr]
    generalize q.1 = o at hnextStep
    cases hnextStep with
    | offRing hp hp' hsupply => cases hp
    | start hstart =>
        apply hstart.leaves_run hrun hwrites _ hother
        rintro rfl
        exact hq.undoes i ok opts rfl hthread hrun
  · intro hsampled as' r' hexec' hguard' ok q hq hstep
    have hover : Overtaken i r.2 := by
      refine ⟨opts, pc, hthread, ?_⟩
      cases pc with
      | check => exact absurd rfl hsampled
      | sample => exact absurd rfl hsampled
      | unlock was ret => exact absurd rfl hsampled
      | refuse e => trivial
      | supplyOff pc => trivial
      | pinsOff => trivial
      | _ => exact .inl hrun
    exact ((overtaken_run hover hguard' hexec').step hq hstep).1 ok rfl

/-- Two starts pass their first checks and one commits; the other takes the lock after
it and comes to its registers. -/
private def crossingStarts : List Action :=
  callWrite 0 [0] ++ call 1 (.start (.resume 5)) 4 ++ call 2 (.start .run) 16 ++
    List.replicate 2 (.thread 1 (.next true))

theorem other_starts_leave_run_alone_false :
    ¬∀ (ringMb : Nat) (args : ScriptArgs) (lines : PinId → Bool) (railOn : Bool) (T : Threads),
      System.Reachable step (probe ringMb args lines railOn) T →
      T.shared.status.state = .running → ∀ i opts pc, T.threads i = .start opts pc →
      (∀ was, pc ≠ .unlock was none) → ∀ ok q, T.step (.thread i (.next ok)) = some q →
      q.2.shared.runData = T.shared.runData := by
  intro h
  have hrun : ((System.execute step crossingStarts bench).bind fun r =>
      (r.2.step (.thread 1 (.next true))).map fun q =>
        (r.2.shared.status.state, r.2.threads 1, r.2.shared.runData.waypoint,
          q.2.shared.runData.waypoint)) =
      some (.running, .start (cncResume 5) (.regs 0), 0, 5) := by decide +kernel
  obtain ⟨r, hexec, hrest⟩ := Option.bind_eq_some_iff.mp hrun
  obtain ⟨q, hstep, hseen⟩ := Option.map_eq_some_iff.mp hrest
  injection hseen with hstate hseen
  injection hseen with hthread hseen
  injection hseen with hbefore hafter
  have hsame := h 1 _ _ false r.2 ⟨_, _, hexec⟩ hstate 1 _ _ hthread (fun was => by simp) true q hstep
  rw [hsame, hbefore] at hafter
  cases hafter

private def uncrossed (T : Threads) (a : Action) : Bool :=
  (match a with
    | .thread i _ =>
        match T.threads i with
        | .start _ (.length _) | .start _ .pinsOff => decide (T.shared.status.state ≠ .running)
        | _ => true
    | .surround _ => true) &&
  [0, 1, 2].all fun j : Nat =>
    decide ((T.threads j).sampled ≠ some (T.shared.stopGeneration + 1))

private theorem uncrossed_of_test {T : Threads} {a : Action} (h : uncrossed T a = true)
    (honly : OnlyThreads [0, 1, 2] T) : Uncrossed T a := by
  obtain ⟨hwaits, hfresh⟩ := (Bool.and_eq_true _ _).mp h
  refine ⟨?_, ?_, ?_⟩
  · rintro i ok opts gen rfl hthread -
    simp only [hthread] at hwaits
    exact of_decide_eq_true hwaits
  · rintro i ok opts rfl hthread
    simp only [hthread] at hwaits
    exact of_decide_eq_true hwaits
  · rintro j gen hgen rfl
    by_cases hj : j ∈ [0, 1, 2]
    · exact of_decide_eq_true (List.all_eq_true.mp hfresh j hj) hgen
    · rw [honly j hj] at hgen
      cases hgen

/-- A start that waits for the lock while another commits leaves the run alone as it takes
the lock, and is refused. -/
theorem other_starts_leave_run_alone_waiting :
    ∃ r q, System.execute step (callWrite 0 [0] ++ call 1 (.start (.resume 5)) 4 ++
        call 2 (.start .run) 16) bench = some r ∧ r.2.shared.status.state = .running ∧
      r.2.threads 1 = .start (cncResume 5) (.lock 0) ∧
      r.2.step (.thread 1 (.next true)) = some q ∧
      q.2.shared.runData = r.2.shared.runData ∧ Refuses q.1 := by
  have hrun : ((System.execute step (callWrite 0 [0] ++ call 1 (.start (.resume 5)) 4 ++
      call 2 (.start .run) 16) bench).bind fun r => (r.2.step (.thread 1 (.next true))).map fun q =>
        (r.2.shared.status.state, r.2.threads 1)) =
      some (.running, .start (cncResume 5) (.lock 0)) := by decide +kernel
  obtain ⟨r, hexec, hrest⟩ := Option.bind_eq_some_iff.mp hrun
  obtain ⟨q, hstep, hseen⟩ := Option.map_eq_some_iff.mp hrest
  injection hseen with hstate hthread
  have hguard := (@along_onlyThreads [0, 1, 2] uncrossed
    (callWrite 0 [0] ++ call 1 (.start (.resume 5)) 4 ++ call 2 (.start .run) 16 ++
      [.thread 1 (.next true)]) bench (onlyThreads_bench _) (by decide +kernel)).mono
    fun T a ha => uncrossed_of_test ha.1 ha.2
  obtain ⟨halong, hnow⟩ := hguard.split hexec
  have hleaves := (other_starts_leave_run_alone hexec halong hstate hthread
    (fun was => by simp)).1 true q hnow.1 hstep
  exact ⟨r, q, hexec, hstate, hthread, hstep, hleaves⟩

end Threads

end Glowforge.Cnc
