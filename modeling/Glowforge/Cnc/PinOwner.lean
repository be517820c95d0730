import Glowforge.Cnc.PinWrites

/-! Who writes the pins of `cnc_sdma_pin_set`. The sections under `status_lock` leave them
to the script while it runs; those outside it do too, unless a run commits between the
check of an operation and its last pin write. -/
namespace Glowforge.Cnc
open Foundation Sdma

def sdmaPins : List PinId := cncSdmaPinSet.map Prod.fst

def StartPc.exposed : StartPc → Bool
  | .unlock _ ret => decide (ret = some .EPERM)
  | .supplyOff _ | .pinsOff => true
  | _ => false

/-- The call has pins of the script to write, and does not look at the state again. -/
def Call.exposed : Call → Bool
  | .start _ pc => pc.exposed
  | .enable (.power _) | .enable (.supplyOff _) | .enable .pinsOff => true
  | .zStep _ pc => decide (pc ≠ .check)
  | _ => false

namespace Call

variable {i : Nat} {d d' : Driver} {p p' : Call} {o : List Notice} {move : Move}

theorem StartStep.exposed {opts : CncRunOptions} {ok : Bool} {pc : StartPc}
    (h : StartStep i d opts ok pc o d' p') (hp : p'.exposed = true) :
    pc.exposed = true ∨ pc.writes = true := by
  cases h with
  | commitRefused => exact .inr rfl
  | committed hclear hgen hstate => exact .inr rfl
  | undo herr => exact .inl (decide_eq_true herr)
  | supplyCheck => exact .inl rfl
  | supplyIsOff => exact .inl rfl
  | supplyDisable => exact .inl rfl
  | powerPins => cases hduty : opts.preservePower <;> rw [hduty] at hp <;> cases hp
  | _ => cases hp

theorem WriteStep.unexposed {data : List Byte} {ok : Bool} {pc : WritePc}
    (h : WriteStep i d data ok pc o d' p') : p'.exposed = false := by
  cases h <;> rfl

theorem CopyStep.unexposed {data : List Byte} (h : CopyStep d data d' p') :
    p'.exposed = false := by
  cases h <;> rfl

theorem ClearStep.unexposed {data position ok : Bool} {pc : ClearPc}
    (h : ClearStep i d data position ok pc o d' p') : p'.exposed = false := by
  cases h <;> rfl

theorem exposed_enable {ok : Bool} {pc : EnablePc} (hp : (stepEnable d ok pc).2.2.exposed = true) :
    (Call.enable pc).exposed = true ∨ d.status.state ≠ .running ∨ d.status.triggeredFaults ≠ 0 := by
  cases pc with
  | check =>
      refine .inr (.inl ?_)
      intro hrun
      simp only [stepEnable, hrun] at hp
      cases hp
  | power pc => exact .inl rfl
  | commit =>
      refine .inr (.inr ?_)
      intro hclear
      simp only [stepEnable, hclear] at hp
      rw [if_neg (by decide)] at hp
      split at hp <;> cases hp
  | supplyOff pc => exact .inl rfl
  | pinsOff => exact .inl rfl

theorem exposed_disable {ok : Bool} {pc : DisablePc} :
    (stepDisable d ok pc).2.2.exposed = false := by
  cases pc with
  | check =>
      unfold stepDisable
      cases d.status.state <;> rfl
  | supplyOff pc =>
      cases pc with
      | check =>
          simp only [stepDisable, supplyOff]
          split <;> rfl
      | disable => rfl

theorem exposed_close {pc : ClosePc} : (stepClose d pc).2.2.exposed = false := by
  cases pc with
  | state =>
      simp only [stepClose]
      split <;> rfl
  | halt => rfl
  | relock => rfl

theorem exposed_zStep {direction : Bool} {pc : ZStepPc}
    (hp : (stepZ d direction pc).2.2.exposed = true) :
    (Call.zStep direction pc).exposed = true ∨ d.status.state ≠ .running := by
  cases pc with
  | check =>
      refine .inr ?_
      intro hrun
      simp only [stepZ, hrun] at hp
      cases hp
  | _ => exact .inl rfl

/-- A call comes to write pins past its check only off a run, out of a start that writes
already, or to undo what a fault came in upon. -/
theorem next_exposed {r : Outcome} (h : next i d p move = some r) (hr : r.2.2.exposed = true) :
    p.exposed = true ∨ p.writes = true ∨ d.status.state ≠ .running ∨
      d.status.triggeredFaults ≠ 0 := by
  unfold next at h
  split at h
  · rename_i call
    cases hcall : call.options with
    | error e =>
        rw [hcall] at h
        cases h
        cases hr
    | ok opts =>
        rw [hcall] at h
        cases h
        cases hr
  · cases h
    cases hr
  · cases h
    cases hr
  · cases h
    cases hr
  · cases h
    cases hr
  · split at h
    · cases h
      cases hr
    · cases h
  · cases h
    cases hr
  · rcases (startStep_of_step h).exposed hr with hexposed | hwrites
    · exact .inl hexposed
    · exact .inr (.inl hwrites)
  · cases h
    rcases exposed_enable hr with hexposed | hrest
    · exact .inl hexposed
    · exact .inr (.inr hrest)
  · cases h
    rw [exposed_disable] at hr
    cases hr
  · cases h
    rw [exposed_close] at hr
    cases hr
  · cases h
    rcases exposed_zStep hr with hexposed | hrest
    · exact .inl hexposed
    · exact .inr (.inr (.inl hrest))
  · rw [(writeStep_of_step h).unexposed] at hr
    cases hr
  · rw [(copyStep_of_step h).2.unexposed] at hr
    cases hr
  · rw [(clearStep_of_step h).unexposed] at hr
    cases hr
  · cases h

end Call

namespace Threads

/-- The steps of a run that finds no other operation between its check and its pins:
no start passes its length check while the driver runs, and none commits while another
call has pins to write. -/
structure Undisturbed (T : Threads) (a : Action) : Prop where
  waits : ∀ i ok opts gen, a = .thread i (.next ok) → T.threads i = .start opts (.length gen) →
    T.shared.admits opts ok → T.shared.status.state ≠ .running
  alone : ∀ i move opts gen was, a = .thread i move →
    T.threads i = .start opts (.commit gen was) → T.shared.status.triggeredFaults = 0 →
    T.shared.stopGeneration = gen →
    (T.shared.status.state = .idle ∨ T.shared.status.state = .disabled) →
    ∀ j, j ≠ i → (T.threads j).exposed = false

def NoneExposed (T : Threads) : Prop :=
  ∀ i, (T.threads i).exposed = true → T.shared.status.state ≠ .running

theorem NoneExposed.step {T : Threads} {a : Action} {r : List Notice × Threads}
    (h : NoneExposed T) (hnone : NoneWrites T) (hsound : FaultSound T) (hguard : Undisturbed T a)
    (hstep : T.step a = some r) : NoneExposed r.2 := by
  cases a with
  | surround event =>
      obtain ⟨d, haround, hr⟩ := Pool.step_surround hstep
      rw [hr]
      intro i hi hrun
      exact h i hi (running_of_around haround hrun)
  | thread i move =>
      obtain ⟨d, p, hnext, hr⟩ := Pool.step_thread hstep
      rw [hr]
      intro j hj hrun
      by_cases hran : T.shared.status.state = .running
      · by_cases hji : j = i
        · subst hji
          have hj' : p.exposed = true := by
            change (Function.update T.threads j p j).exposed = true at hj
            rwa [Function.update_self] at hj
          rcases Call.next_exposed hnext hj' with hexposed | hwrites | hstate | hfaults
          · exact h j hexposed hran
          · exact hnone j hwrites hran
          · exact hstate hran
          · have hfault : T.shared.status.state = .fault := hsound.2.fault hfaults
            rw [hran] at hfault
            cases hfault
        · have hj' : (T.threads j).exposed = true := by
            change (Function.update T.threads i p j).exposed = true at hj
            rwa [Function.update_of_ne hji] at hj
          exact h j hj' hran
      · -- the thread commits: nobody else has pins to write, and it has none left
        rcases Control.Step.running (Driver.next_simulated hnext) hrun with hbefore | ⟨opts, hmem⟩
        · exact hran hbefore
        · obtain ⟨gen, was, hp, hclear, hgen, hstate, hcommit⟩ :=
            Call.next_committed hnext (List.mem_filter.mp hmem).1
          by_cases hji : j = i
          · subst hji
            have hdone : p = .start opts (.unlock was none) :=
              congrArg (fun r : Outcome => r.2.2) hcommit
            change (Function.update T.threads j p j).exposed = true at hj
            rw [Function.update_self, hdone] at hj
            cases hj
          · have hj' : (T.threads j).exposed = true := by
              change (Function.update T.threads i p j).exposed = true at hj
              rwa [Function.update_of_ne hji] at hj
            have hunexposed :=
              hguard.alone i move opts gen was rfl hp hclear hgen hstate j hji
            rw [hj'] at hunexposed
            cases hunexposed

theorem stopped_of_around {d : Driver} {event : Surrounding} {r : List Notice × Driver}
    (h : d.around event = some r) (hrun : d.status.state = .running) (hpanic : event ≠ .panic)
    {p : PinId} (hp : p ∈ sdmaPins) (hwrites : p ∈ d.hostWrites event) :
    ∃ next, .stopped next ∈ r.1 := by
  have hown (value : Int) (hp' : p ∈ d.hostWrites (.setLaserLatch value)) :
      ∃ next, .stopped next ∈ r.1 := by
    have hlatch : d.hostWrites (.setLaserLatch value) = [.laserLatchReset] := by
      simp [Driver.hostWrites, hrun]
    rw [hlatch] at hp'
    cases List.mem_singleton.mp hp'
    exact absurd hp (by decide)
  have hnone {written : List PinId} {b : Prop} [Decidable b] (hb : ¬b)
      (hp' : p ∈ if b then written else []) : ∃ next, .stopped next ∈ r.1 := by
    rw [if_neg hb] at hp'
    cases hp'
  have hcase := Driver.happens h
  generalize r.1 = o, r.2 = d' at hcase hown hnone ⊢
  cases hcase with
  | halts hstate => exact ⟨.idle, List.mem_cons_self⟩
  | rampStops hdec hslow => exact ⟨.idle, List.mem_cons_self⟩
  | streamEnds hmail hstate hstream => exact ⟨.underrun, List.mem_cons_self⟩
  | runEnds hmail hstate hstream => exact ⟨.idle, List.mem_cons_self⟩
  | faults hpending hstate => exact ⟨.fault, List.mem_cons_self⟩
  | haltRests hstate => exact absurd hrun hstate
  | locks hvalue => exact hown _ hwrites
  | unlocks hrest => exact hown _ hwrites
  | unlocksMoving hmoves => exact hown _ hwrites
  | rampEnds hdec hacc => exact hnone (by simp [hdec]) hwrites
  | rampSlows hdec hfast hfreq => exact hnone (fun hboth => hfast hboth.2) hwrites
  | rampSpeeds hdec hacc hfreq hslow => exact hnone (by simp [hdec]) hwrites
  | rampArrives hdec hacc hfull => exact hnone (by simp [hdec]) hwrites
  | pumpEnds hstate => exact absurd hrun hstate
  | pumps hstate =>
      have hpump : d.hostWrites .chargePumpTimer = [.chargePump] := if_pos hrun
      rw [hpump] at hwrites
      cases List.mem_singleton.mp hwrites
      exact absurd hp (by decide)
  | interruptLate hmail hstate => exact absurd hrun hstate
  | interruptUnarmed hmail harmed => exact hnone (fun hboth => hboth.1 hmail) hwrites
  | waypoint hmail harmed hdecel => exact hnone (fun hboth => hboth.1 hmail) hwrites
  | waypointDecelerates hmail harmed hdecel => exact hnone (fun hboth => hboth.1 hmail) hwrites
  | nonePending hquiet =>
      refine hnone (fun hboth => ?_) hwrites
      obtain ⟨f, hf, hpending⟩ := List.any_eq_true.mp hboth.1
      rw [hquiet f] at hpending
      cases hpending
  | faultsMore hpending hstate =>
      rw [hrun] at hstate
      cases hstate
  | panic => exact absurd rfl hpanic
  | _ => cases hwrites

theorem stopped_of_next {i : Nat} {d : Driver} {p : Call} {move : Move} {r : Outcome}
    (h : Call.next i d p move = some r) (hrun : d.status.state = .running)
    (hexposed : p.exposed = false) (hquiet : p.writes = false) {q : PinId} (hq : q ∈ sdmaPins)
    (hwrites : q ∈ p.hostWrites d) : ∃ next, .stopped next ∈ r.1 := by
  cases p with
  | start opts pc =>
      cases pc with
      | power gen was pc => cases hquiet
      | commit gen was => cases hquiet
      | pinsOff => cases hexposed
      | _ => cases hwrites
  | enable pc =>
      cases pc with
      | power pc => cases hexposed
      | pinsOff => cases hexposed
      | _ => cases hwrites
  | disable pc =>
      cases pc with
      | check =>
          cases move with
          | next ok =>
              cases h
              simp only [Call.stepDisable, hrun]
              exact ⟨.disabled, List.mem_cons_self⟩
          | _ => cases h
      | supplyOff pc => cases hwrites
  | close pc =>
      cases pc with
      | state => cases hwrites
      | halt =>
          cases move with
          | next ok =>
              cases h
              simp only [Call.stepClose, Driver.cncHalt, hrun]
              exact ⟨.idle, List.mem_cons_self⟩
          | _ => cases h
      | relock =>
          cases List.mem_singleton.mp hwrites
          exact absurd hq (by decide)
  | zStep direction pc =>
      cases pc with
      | check => cases hwrites
      | _ => cases hexposed
  | _ => cases hwrites

theorem laserOn_of_committed {T : Threads} {a : Action} {r : List Notice × Threads}
    {opts : CncRunOptions} (hstep : T.step a = some r) (hmem : .committed opts ∈ r.1) {p : PinId}
    (hp : p ∈ sdmaPins) (hwrites : p ∈ T.hostWrites a) : p = .laserOn := by
  cases a with
  | surround event =>
      obtain ⟨d, haround, -⟩ := Pool.step_surround hstep
      exact absurd hmem (Driver.notMem_of_around haround rfl)
  | thread i move =>
      obtain ⟨d, p', hnext, -⟩ := Pool.step_thread hstep
      obtain ⟨gen, was, hthread, hclear, hgen, hstate, -⟩ := Call.next_committed hnext hmem
      have hcommit : T.hostWrites (.thread i move) = T.shared.commitWrites := by
        change (T.threads i).hostWrites T.shared = _
        rw [hthread]
        exact if_pos ⟨hclear, hgen, hstate⟩
      rw [hcommit] at hwrites
      rcases List.mem_append.mp hwrites with hfire | hhost
      · split at hfire
        · cases hfire
        · exact List.mem_singleton.mp hfire
      · have hown : ∀ p ∈ [PinId.beamLatchReset, .chargePump], p ∉ sdmaPins := by decide
        exact absurd hp (hown p hhost)

private theorem noneExposed_run {as : List Action} {T₀ : Threads} {r : List Notice × Threads}
    (hlocked : Locked T₀) (hnone : NoneWrites T₀) (hsound : FaultSound T₀)
    (hunexposed : NoneExposed T₀) (hguard : System.Along step Undisturbed as T₀)
    (hexec : System.execute step as T₀ = some r) : NoneWrites r.2 ∧ NoneExposed r.2 := by
  have hrun := System.execute_guarded
    (I := fun T => (Locked T ∧ FaultSound T) ∧ NoneWrites T ∧ NoneExposed T)
    (P := fun _ => True) (fun T a r hinv hguard hstep => ?_)
    ⟨⟨hlocked, hsound⟩, hnone, hunexposed⟩ hguard hexec
  · exact hrun.1.2
  · obtain ⟨⟨hlocked, hsound⟩, hnone, hunexposed⟩ := hinv
    refine ⟨⟨⟨hlocked.step hstep, hsound.step hstep⟩, ?_⟩, fun _ _ => trivial⟩
    exact ⟨hnone.step hlocked hguard.waits hstep, hunexposed.step hnone hsound hguard hstep⟩

/-- In every undisturbed run, while the driver is RUNNING, a step of the host writes a pin
of the script only in stopping the run; and a commit writes none but the FIRE line. -/
theorem script_owns_its_pins {ringMb : Nat} {args : ScriptArgs} {lines : PinId → Bool}
    {railOn : Bool} {as : List Action} {r q : List Notice × Threads} {a : Action}
    (hexec : System.execute step as (probe ringMb args lines railOn) = some r)
    (hguard : System.Along step Undisturbed as (probe ringMb args lines railOn))
    (hstep : r.2.step a = some q) (hpanic : a ≠ .surround .panic)
    (htick : ∀ fuel, a ≠ .surround (.tick fuel)) :
    (r.2.shared.status.state = .running → ∀ p ∈ sdmaPins, p ∈ r.2.hostWrites a →
      ∃ next, .stopped next ∈ q.1) ∧
    (∀ opts, .committed opts ∈ q.1 → ∀ p ∈ sdmaPins, p ∈ r.2.hostWrites a → p = .laserOn) ∧
    Leaves (r.2.hostWrites a) r.2.shared.pins q.2.shared.pins := by
  obtain ⟨hnone, hunexposed⟩ := noneExposed_run (locked_probe ringMb args lines railOn)
    (fun i hi => by cases hi) (faultSound_probe ringMb args lines railOn)
    (fun i hi => by cases hi) hguard hexec
  refine ⟨?_, fun opts hmem p hp hwrites => laserOn_of_committed hstep hmem hp hwrites,
    step_leaves hstep htick⟩
  intro hrun p hp hwrites
  cases a with
  | surround event =>
      obtain ⟨d, haround, -⟩ := Pool.step_surround hstep
      have hevent : event ≠ .panic := by
        rintro rfl
        exact hpanic rfl
      exact stopped_of_around haround hrun hevent hp hwrites
  | thread i move =>
      obtain ⟨d, p', hnext, -⟩ := Pool.step_thread hstep
      have hfree : (r.2.threads i).exposed = false :=
        Bool.eq_false_iff.mpr fun h => hunexposed i h hrun
      have hquiet : (r.2.threads i).writes = false :=
        Bool.eq_false_iff.mpr fun h => hnone i h hrun
      exact stopped_of_next hnext hrun hfree hquiet hp hwrites

/-- A single Z step passes its check, a run commits, and the Z step writes its pins. -/
private def zStepOverRun : List Action :=
  callWrite 0 [0] ++ call 1 (.zStep true) 1 ++ call 2 (.start .run) 15

theorem script_owns_its_pins_false :
    ¬∀ (ringMb : Nat) (args : ScriptArgs) (lines : PinId → Bool) (railOn : Bool)
      (as : List Action) (r q : List Notice × Threads) (a : Action),
      System.execute step as (probe ringMb args lines railOn) = some r → r.2.step a = some q →
      a ≠ .surround .panic → (∀ fuel, a ≠ .surround (.tick fuel)) →
      r.2.shared.status.state = .running → ∀ p ∈ sdmaPins, p ∈ r.2.hostWrites a →
      ∃ next, .stopped next ∈ q.1 := by
  intro h
  have hrun : ((System.execute step zStepOverRun bench).bind fun r =>
      (r.2.step (.thread 1 (.next true))).map fun q =>
        (r.2.shared.status.state, r.2.hostWrites (.thread 1 (.next true)), q.1)) =
      some (.running, [.zDir], []) := by decide +kernel
  obtain ⟨r, hexec, hrest⟩ := Option.bind_eq_some_iff.mp hrun
  obtain ⟨q, hstep, hseen⟩ := Option.map_eq_some_iff.mp hrest
  injection hseen with hstate hseen
  injection hseen with hwrites hquiet
  obtain ⟨next, hmem⟩ := h 1 _ _ false zStepOverRun r q _ hexec hstep (by simp) (by simp) hstate
    .zDir (by decide) (by rw [hwrites]; exact List.mem_cons_self)
  rw [hquiet] at hmem
  cases hmem

private def undisturbed (T : Threads) (a : Action) : Bool :=
  match a with
  | .thread i _ =>
      match T.threads i with
      | .start _ (.length _) => decide (T.shared.status.state ≠ .running)
      | .start _ (.commit _ _) => [0, 2].all fun j : Nat => j = i || !(T.threads j).exposed
      | _ => true
  | .surround _ => true

private theorem undisturbed_of_test {T : Threads} {a : Action} (h : undisturbed T a = true)
    (honly : OnlyThreads [0, 2] T) : Undisturbed T a := by
  refine ⟨?_, ?_⟩
  · rintro i ok opts gen rfl hthread -
    simp only [undisturbed, hthread] at h
    exact of_decide_eq_true h
  · rintro i move opts gen was rfl hthread - - - j hji
    simp only [undisturbed, hthread] at h
    by_cases hj : j ∈ [0, 2]
    · have hfree := List.all_eq_true.mp h j hj
      rw [decide_eq_false hji] at hfree
      exact (Bool.not_eq_true' _).mp hfree
    · rw [honly j hj]
      rfl

/-- A run that commits alone is halted, and the halt writes the step pins. -/
theorem script_owns_its_pins_halted :
    ∃ r q, System.execute step (callWrite 0 [0] ++ call 2 (.start .run) 16) bench = some r ∧
      r.2.shared.status.state = .running ∧ r.2.step (.surround .halt) = some q ∧
      (∃ next, .stopped next ∈ q.1) ∧
      Leaves (r.2.hostWrites (.surround .halt)) r.2.shared.pins q.2.shared.pins := by
  have hrun : ((System.execute step (callWrite 0 [0] ++ call 2 (.start .run) 16) bench).bind
      fun r => (r.2.step (.surround .halt)).map fun _ =>
        (r.2.shared.status.state, decide (.xStep ∈ r.2.hostWrites (.surround .halt)))) =
      some (.running, true) := by decide +kernel
  obtain ⟨r, hexec, hrest⟩ := Option.bind_eq_some_iff.mp hrun
  obtain ⟨q, hstep, hseen⟩ := Option.map_eq_some_iff.mp hrest
  injection hseen with hstate hwrites
  have hguard := (@along_onlyThreads [0, 2] undisturbed
    (callWrite 0 [0] ++ call 2 (.start .run) 16) bench (onlyThreads_bench _)
    (by decide +kernel)).mono fun T a ha => undisturbed_of_test ha.1 ha.2
  have howns := script_owns_its_pins hexec hguard hstep (by simp) (by simp)
  exact ⟨r, q, hexec, hstate, hstep,
    howns.1 hstate .xStep (by decide) (of_decide_eq_true hwrites), howns.2.2⟩

end Threads

end Glowforge.Cnc
