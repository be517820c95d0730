import Glowforge.Cnc.PulsebufLock

/-! The 40 V supply under a run. A start powers the rail on outside `status_lock` and
commits later; the rail is up at the commit unless a power-off that an operation owes
from before falls in between. -/
namespace Glowforge.Cnc
open Foundation Sdma

namespace Control

theorem Step.generation {c c' : Control} {o : List Notice} (h : Step c o c') :
    c'.stopGeneration = c.stopGeneration ∨ c'.stopGeneration = c.stopGeneration + 1 := by
  cases h with
  | stop nextState hfrom hnext => exact .inr (stop_stopGeneration c nextState)
  | fault hstate =>
      rw [stop_stopGeneration, latchFaults_stopGeneration]
      exact .inr rfl
  | latch hstate => exact .inl (latchFaults_stopGeneration c)
  | decelerate hrun => exact .inl (decelerate_stopGeneration c)
  | waypoint harmed => exact .inl (waypoint_stopGeneration c)
  | commit opts hclear hstate => exact .inl (commit_stopGeneration c opts)
  | unlock => exact .inl (unlock_stopGeneration c)
  | _ => exact .inl rfl

theorem Step.running {c c' : Control} {o : List Notice} (h : Step c o c')
    (hrun : c'.status.state = .running) :
    c.status.state = .running ∨ ∃ opts, .committed opts ∈ o := by
  cases h with
  | commit opts hclear hstate => exact .inr ⟨opts, List.mem_cons_self⟩
  | stop nextState hfrom hnext => exact absurd hrun hnext.1
  | fault hstate => cases hrun
  | enable hclear hstate => cases hrun
  | acknowledge hstate => cases hrun
  | latch hstate =>
      rw [latchFaults_state] at hrun
      exact .inl hrun
  | decelerate hrun' => exact .inl hrun'
  | waypoint harmed =>
      rw [waypoint_state] at hrun
      exact .inl hrun
  | unlock =>
      rw [unlock_status] at hrun
      exact .inl hrun
  | _ => exact .inl hrun

end Control

/-- The generation of a start that has seen the rail up and has not yet committed. -/
def StartPc.poised : StartPc → Option Word
  | .power gen _ .pins | .duty gen _ | .commit gen _ => some gen
  | _ => none

def Call.poised : Call → Option Word
  | .start _ pc => pc.poised
  | _ => none

namespace Call

variable {i : Nat} {d d' : Driver} {p p' : Call} {o : List Notice} {move : Move}

theorem poised_of_offRing (h : p.offRing = true) : p.poised = none := by
  cases p with
  | start opts pc => cases h
  | _ => rfl

theorem poised_of_begins (h : Begins move p) : p.poised = none := by
  cases h with
  | offRing hp => exact poised_of_offRing hp
  | start hcall => rfl
  | write hlen => rfl
  | clear data position => rfl

theorem StartStep.poised {opts : CncRunOptions} {ok : Bool} {pc : StartPc} {gen : Word}
    (h : StartStep i d opts ok pc o d' p') (hok : (Call.start opts pc).raising = true → ok = true)
    (hp : p'.poised = some gen) :
    0 < d'.supply40v ∨ pc.poised = some gen ∧ d'.supply40v = d.supply40v ∧
      d'.stopGeneration = d.stopGeneration := by
  cases h with
  | powerCheck =>
      cases hon : d.regulatorIsEnabled with
      | true => exact .inl (of_decide_eq_true hon)
      | false =>
          rw [hon] at hp
          cases hp
  | powerEnable =>
      rw [hok rfl]
      exact .inl (Nat.succ_pos _)
  | powerPins =>
      refine .inr ⟨?_, rfl, rfl⟩
      cases hduty : opts.preservePower <;> rw [hduty] at hp <;> exact hp
  | duty => exact .inr ⟨hp, rfl, rfl⟩
  | _ => cases hp

theorem NextStep.supply (h : NextStep i d p move o d' p') :
    d.supply40v ≤ d'.supply40v ∨
      p.lowering = true ∧ d'.supply40v = d.supply40v - 1 ∧ ∃ ok, move = .next ok := by
  cases h with
  | begin hbegin => exact .inl (Nat.le_refl _)
  | invalid e => exact .inl (Nat.le_refl _)
  | @start opts pc ok o d' p' hstep =>
      cases hstep with
      | supplyDisable =>
          cases ok with
          | true => exact .inr ⟨rfl, rfl, true, rfl⟩
          | false => exact .inl (Nat.le_refl _)
      | powerEnable =>
          apply Or.inl
          cases ok with
          | true => exact Nat.le_succ _
          | false => exact Nat.le_refl _
      | committed hclear hgen hstate =>
          apply Or.inl
          rw [show (d.commit opts).supply40v = d.supply40v from
            congrArg Aside.supply40v (Driver.aside_commit d opts)]
      | _ => exact .inl (Nat.le_refl _)
  | write hstep => cases hstep <;> exact .inl (Nat.le_refl _)
  | copy hstep => cases hstep <;> exact .inl (Nat.le_refl _)
  | clear hstep => cases hstep <;> exact .inl (Nat.le_refl _)
  | @offRing p p' ok o d' hp hp' hsupply =>
      cases hsupply with
      | keep haside => exact .inl (Nat.le_of_eq (congrArg Aside.supply40v haside).symm)
      | raise hraise haside =>
          have hmore : d'.supply40v = d.supply40v + 1 := congrArg Aside.supply40v haside
          exact .inl (by omega)
      | lower hlower haside => exact .inr ⟨hlower, congrArg Aside.supply40v haside, ok, rfl⟩

end Call

theorem Driver.around_supply {d : Driver} {event : Surrounding} {r : List Notice × Driver}
    (h : d.around event = some r) : r.2.supply40v = d.supply40v := by
  by_cases htick : ∃ fuel, event = .tick fuel
  · obtain ⟨fuel, rfl⟩ := htick
    obtain ⟨-, es, c, -, hr⟩ := tick_cases h
    rw [hr]
  · rcases around_aside h fun fuel heq => htick ⟨fuel, heq⟩ with haside | haside
    · exact congrArg Aside.supply40v haside
    · exact congrArg Aside.supply40v haside

namespace Threads

def RegulatorsSucceed (T : Threads) (a : Action) : Prop :=
  ∀ i ok, a = .thread i (.next ok) →
    (T.threads i).raising = true ∨ (T.threads i).lowering = true → ok = true

/-- The steps of a run that no power-off surprises: regulator calls succeed; none takes
the last use of the rail while the driver runs or a start that no stop has overtaken is
poised to commit; and no poised start sleeps through `2 ^ 32` stops. -/
structure RailKept (T : Threads) (a : Action) : Prop where
  succeed : RegulatorsSucceed T a
  spare : ∀ i ok, a = .thread i (.next ok) → (T.threads i).lowering = true →
    T.shared.supply40v ≤ 1 → T.shared.status.state ≠ .running ∧
      ∀ j gen, (T.threads j).poised = some gen → gen ≠ T.shared.stopGeneration
  fresh : ∀ j gen, (T.threads j).poised = some gen → gen ≠ T.shared.stopGeneration + 1

/-- The rail is up in RUNNING, and under every start that is poised to commit. -/
def Railed (T : Threads) : Prop :=
  Pool.Holds (fun d => d.status.state = .running → 0 < d.supply40v)
    (fun d _ p => ∀ gen, p.poised = some gen → gen = d.stopGeneration → 0 < d.supply40v) T

theorem railed_probe (ringMb : Nat) (args : ScriptArgs) (lines : PinId → Bool) (railOn : Bool) :
    Railed (probe ringMb args lines railOn) := by
  constructor
  · exact fun hrun => absurd hrun (probe_rests ringMb args lines railOn)
  · intro i gen hp
    cases hp

private theorem poised_kept {T : Threads} {a : Action} {d' : Driver} (h : Railed T)
    (hkept : RailKept T a) {o : List Notice} (hsim : Driver.Simulated o T.shared d')
    (hsupply : (∀ j gen, (T.threads j).poised = some gen → gen = T.shared.stopGeneration →
      0 < T.shared.supply40v → 0 < d'.supply40v)) (j : Nat) (gen : Word)
    (hp : (T.threads j).poised = some gen) (hgen : gen = d'.stopGeneration) :
    0 < d'.supply40v := by
  rcases Control.Step.generation hsim with hsame | hmoved
  · have hnow : gen = T.shared.stopGeneration := hgen.trans hsame
    exact hsupply j gen hp hnow (h.threads j gen hp hnow)
  · exact absurd (hgen.trans hmoved) (hkept.fresh j gen hp)

theorem Railed.step {T : Threads} {a : Action} {r : List Notice × Threads} (h : Railed T)
    (hkept : RailKept T a) (hstep : T.step a = some r) : Railed r.2 := by
  have hsim := step_simulated hstep
  apply Pool.Holds.step h hstep
  · rintro i move d p rfl hnext
    have hnextStep : Call.NextStep i T.shared (T.threads i) move r.1 d p :=
      Call.nextStep_of_next hnext
    have hsim' : Driver.Simulated r.1 T.shared d := Driver.next_simulated hnext
    -- the rail loses a use only where the guard spares the runs
    have hsupply : (T.shared.status.state = .running ∨
        ∃ j gen, (T.threads j).poised = some gen ∧ gen = T.shared.stopGeneration) →
        0 < T.shared.supply40v → 0 < d.supply40v := by
      intro hneeded hup
      rcases hnextStep.supply with hmore | ⟨hlower, hless, ok, hmove⟩
      · exact Nat.lt_of_lt_of_le hup hmore
      · by_cases hlast : T.shared.supply40v ≤ 1
        · obtain ⟨hrest, hnone⟩ := hkept.spare i ok (by rw [hmove]) hlower hlast
          rcases hneeded with hrun | ⟨j, gen, hp, hgen⟩
          · exact absurd hrun hrest
          · exact absurd hgen (hnone j gen hp)
        · omega
    have hothers := poised_kept h hkept hsim' fun j gen hp hgen hup =>
      hsupply (.inr ⟨j, gen, hp, hgen⟩) hup
    refine ⟨?_, ?_, fun j _ _ gen => hothers j gen⟩
    · intro hrun
      rcases Control.Step.running hsim' hrun with hbefore | ⟨opts, hmem⟩
      · exact hsupply (.inl hbefore) (h.shared hbefore)
      · obtain ⟨gen, was, hp, -, hgen, -, -⟩ :=
          Call.next_committed hnext (List.mem_filter.mp hmem).1
        have hpoised : (T.threads i).poised = some gen := by
          rw [hp]
          rfl
        exact hsupply (.inr ⟨i, gen, hpoised, hgen.symm⟩) (h.threads i gen hpoised hgen.symm)
    · intro gen hp hgen
      generalize hthread : T.threads i = q at hnextStep
      generalize r.1 = o at hnextStep
      cases hnextStep with
      | begin hbegin =>
          rw [Call.poised_of_begins hbegin] at hp
          cases hp
      | invalid e => cases hp
      | @start opts pc ok o d' p' hstart =>
          have hok : (Call.start opts pc).raising = true → ok = true := fun hraise =>
            hkept.succeed i ok rfl (.inl (by rwa [hthread]))
          rcases hstart.poised hok hp with hup | ⟨hbefore, hsame, hgen'⟩
          · exact hup
          · rw [hsame]
            apply h.threads i gen
            · rw [hthread]
              exact hbefore
            · exact hgen.trans hgen'
      | write hwrite => cases hwrite <;> cases hp
      | copy hcopy => cases hcopy <;> cases hp
      | clear hclear => cases hclear <;> cases hp
      | offRing hq hp' hsup =>
          rcases hp' with rfl | hp'
          · cases hp
          · rw [Call.poised_of_offRing hp'] at hp
            cases hp
  · rintro event d rfl haround
    have hsim' : Driver.Simulated r.1 T.shared d := Driver.around_simulated haround
    have hsame : d.supply40v = T.shared.supply40v := Driver.around_supply haround
    have hothers := poised_kept h hkept hsim' fun j gen hp hgen hup => by rwa [hsame]
    refine ⟨?_, fun j _ gen => hothers j gen⟩
    intro hrun
    rcases Control.Step.running hsim' hrun with hbefore | ⟨opts, hmem⟩
    · rw [hsame]
      exact h.shared hbefore
    · exact absurd (List.mem_filter.mp hmem).1 (Driver.notMem_of_around haround rfl)

/-- In every run whose steps all keep the rail, the supply is enabled in every state in
which the driver is RUNNING. -/
theorem rail_up_while_running {ringMb : Nat} {args : ScriptArgs} {lines : PinId → Bool}
    {railOn : Bool} {as : List Action} {r : List Notice × Threads}
    (hexec : System.execute step as (probe ringMb args lines railOn) = some r)
    (hkept : System.Along step RailKept as (probe ringMb args lines railOn))
    (hrun : r.2.shared.status.state = .running) : r.2.shared.regulatorIsEnabled = true := by
  have hinv := System.execute_guarded (I := Railed) (P := fun _ => True)
    (fun T a r hinv hguard hstep => ⟨hinv.step hguard hstep, fun _ _ => trivial⟩)
    (railed_probe ringMb args lines railOn) hkept hexec
  exact decide_eq_true (hinv.1.shared hrun)

def succeeds : Action → Bool
  | .thread _ (.next ok) => ok
  | _ => true

theorem along_succeeds {as : List Action} (h : as.all succeeds = true) (T : Threads) :
    System.Along step RegulatorsSucceed as T := by
  have halong : System.Along step (fun _ a => succeeds a = true) as T :=
    System.along_of_forall (List.all_eq_true.mp h) T
  apply halong.mono
  rintro T a ha i ok rfl _
  exact ha

/-- A disable stops the driver and has yet to drop the rail; a start begins after the
stop, finds the rail up and commits; the disable drops it. -/
private def disableOverStart : List Action :=
  call 0 .enable 5 ++ callWrite 0 [0] ++ call 1 .disable 2 ++ call 2 (.start .run) 14 ++
    [.thread 1 (.next true)]

theorem rail_up_while_running_false :
    ¬∀ (ringMb : Nat) (args : ScriptArgs) (lines : PinId → Bool) (railOn : Bool)
      (as : List Action) (r : List Notice × Threads),
      System.execute step as (probe ringMb args lines railOn) = some r →
      System.Along step RegulatorsSucceed as (probe ringMb args lines railOn) →
      r.2.shared.status.state = .running → r.2.shared.regulatorIsEnabled = true := by
  intro h
  have hrun : ((System.execute step disableOverStart bench).map fun r =>
      (r.2.shared.status.state, r.2.shared.regulatorIsEnabled)) = some (.running, false) := by
    decide +kernel
  obtain ⟨r, hexec, hseen⟩ := Option.map_eq_some_iff.mp hrun
  injection hseen with hstate hoff
  have hon := h 1 _ _ false disableOverStart r hexec (along_succeeds (by decide) _) hstate
  rw [hoff] at hon
  cases hon

/-- A start from a disabled driver powers the rail on and commits. -/
theorem rail_up_while_running_start :
    ∃ r, System.execute step (callWrite 0 [0] ++ call 2 (.start .run) 15) bench = some r ∧
      r.2.shared.status.state = .running ∧ r.2.shared.regulatorIsEnabled = true := by
  have hrun : ((System.execute step (callWrite 0 [0] ++ call 2 (.start .run) 15) bench).map
      fun r => r.2.shared.status.state) = some .running := by decide +kernel
  obtain ⟨r, hexec, hstate⟩ := Option.map_eq_some_iff.mp hrun
  have halong := @along_onlyThreads [0, 2] (fun T a => succeeds a && [0, 2].all fun j : Nat =>
      !(T.threads j).lowering && decide ((T.threads j).poised ≠ some (T.shared.stopGeneration + 1)))
    (callWrite 0 [0] ++ call 2 (.start .run) 15) bench (onlyThreads_bench _) (by decide +kernel)
  have hkept : System.Along step RailKept (callWrite 0 [0] ++ call 2 (.start .run) 15) bench := by
    apply halong.mono
    rintro T a ⟨htest, honly⟩
    obtain ⟨hsucceeds, hall⟩ := (Bool.and_eq_true _ _).mp htest
    have hthread (j : Nat) : (T.threads j).lowering = false ∧
        (T.threads j).poised ≠ some (T.shared.stopGeneration + 1) := by
      by_cases hj : j ∈ [0, 2]
      · have := List.all_eq_true.mp hall j hj
        simpa using this
      · rw [honly j hj]
        exact ⟨rfl, by simp [Call.poised]⟩
    refine ⟨?_, ?_, ?_⟩
    · rintro i ok rfl _
      exact hsucceeds
    · intro i ok _ hlower
      rw [(hthread i).1] at hlower
      cases hlower
    · rintro j gen hp rfl
      exact (hthread j).2 hp
  exact ⟨r, hexec, hstate, rail_up_while_running hexec hkept hstate⟩

end Threads

end Glowforge.Cnc
