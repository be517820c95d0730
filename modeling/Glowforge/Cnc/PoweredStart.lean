import Glowforge.Cnc.SupplyRail

/-! The 40 V supply at success. Where no other operation comes in between, an enable or
a start that has seen the rail up still finds it up where it commits; a
`regulator_enable` that fails is only logged, and both go on all the same. -/
namespace Glowforge.Cnc
open Foundation Sdma

def Call.powered : Call → Bool
  | .start _ pc => pc.poised.isSome
  | .enable (.power .pins) | .enable .commit => true
  | _ => false

namespace Call

variable {i : Nat} {d d' : Driver} {p p' : Call} {o : List Notice} {move : Move}

theorem StartStep.powered {opts : CncRunOptions} {ok : Bool} {pc : StartPc}
    (h : StartStep i d opts ok pc o d' p') (hok : (Call.start opts pc).raising = true → ok = true)
    (hp : p'.powered = true) :
    0 < d'.supply40v ∨ (Call.start opts pc).powered = true ∧ d'.supply40v = d.supply40v := by
  have hstart : p'.poised.isSome = true := by
    cases p' with
    | start opts' pc' => exact hp
    | enable pc' => cases h
    | _ => cases hp
  obtain ⟨gen, hgen⟩ := Option.isSome_iff_exists.mp hstart
  rcases h.poised hok hgen with hup | ⟨hbefore, hsame, -⟩
  · exact .inl hup
  · refine .inr ⟨?_, hsame⟩
    change pc.poised.isSome = true
    rw [hbefore]
    rfl

private theorem enable_powered (d : Driver) (ok : Bool) (pc : EnablePc)
    (hok : (Call.enable pc).raising = true → ok = true)
    (hp : (stepEnable d ok pc).2.2.powered = true) :
    0 < (stepEnable d ok pc).2.1.supply40v ∨
      (Call.enable pc).powered = true ∧ (stepEnable d ok pc).2.1.supply40v = d.supply40v := by
  cases pc with
  | check =>
      simp only [stepEnable] at hp
      split at hp
      · split at hp <;> cases hp
      · split at hp <;> cases hp
      · cases hp
      · cases hp
      · cases hp
  | power pc =>
      cases pc with
      | check =>
          cases hon : d.regulatorIsEnabled with
          | true => exact .inl (of_decide_eq_true hon)
          | false =>
              simp only [stepEnable, powerOn, hon] at hp
              cases hp
      | enable =>
          rw [hok rfl]
          exact .inl (Nat.succ_pos _)
      | pins => exact .inr ⟨rfl, rfl⟩
  | commit =>
      simp only [stepEnable] at hp
      split at hp
      · cases hp
      · split at hp <;> cases hp
  | supplyOff pc =>
      cases pc with
      | check =>
          simp only [stepEnable, supplyOff] at hp
          split at hp <;> cases hp
      | disable => cases hp
  | pinsOff => cases hp

private theorem powered_of_first {r : Outcome} (h : next i d .idle move = some r) :
    r.2.2.powered = false := by
  cases move with
  | start call =>
      simp only [next] at h
      split at h <;> cases h <;> rfl
  | write data =>
      simp only [next] at h
      split at h <;> cases h
      rfl
  | next ok => cases h
  | copied outcome => cases h
  | _ =>
      cases h
      rfl

private theorem disable_powered (d : Driver) (ok : Bool) (pc : DisablePc) :
    (stepDisable d ok pc).2.2.powered = false := by
  cases pc with
  | check =>
      simp only [stepDisable]
      split <;> rfl
  | supplyOff pc =>
      cases pc with
      | check =>
          simp only [stepDisable, supplyOff]
          split <;> rfl
      | disable => rfl

private theorem close_powered (d : Driver) (pc : ClosePc) :
    (stepClose d pc).2.2.powered = false := by
  cases pc with
  | state =>
      simp only [stepClose]
      split <;> rfl
  | halt => rfl
  | relock => rfl

private theorem zStep_powered (d : Driver) (direction : Bool) (pc : ZStepPc) :
    (stepZ d direction pc).2.2.powered = false := by
  cases pc with
  | check =>
      simp only [stepZ]
      split <;> rfl
  | _ => rfl

theorem next_powered {r : Outcome} (h : next i d p move = some r)
    (hok : ∀ ok, move = .next ok → p.raising = true → ok = true) (hp : r.2.2.powered = true) :
    0 < r.2.1.supply40v ∨ p.powered = true ∧ r.2.1.supply40v = d.supply40v := by
  have hstep := nextStep_of_next h
  have hnot : r.2.2.powered = false → 0 < r.2.1.supply40v ∨
      p.powered = true ∧ r.2.1.supply40v = d.supply40v := by
    intro hfalse
    rw [hfalse] at hp
    cases hp
  cases p with
  | idle => exact hnot (powered_of_first h)
  | start opts pc =>
      cases move with
      | next ok => exact (startStep_of_step h).powered (hok ok rfl) hp
      | _ => cases h
  | enable pc =>
      cases move with
      | next ok =>
          cases h
          exact enable_powered d ok pc (hok ok rfl) hp
      | _ => cases h
  | disable pc =>
      cases move with
      | next ok =>
          cases h
          exact hnot (disable_powered d ok pc)
      | _ => cases h
  | close pc =>
      cases move with
      | next ok =>
          cases h
          exact hnot (close_powered d pc)
      | _ => cases h
  | zStep direction pc =>
      cases move with
      | next ok =>
          cases h
          exact hnot (zStep_powered d direction pc)
      | _ => cases h
  | write data pc =>
      apply hnot
      generalize r.1 = o, r.2.1 = d', r.2.2 = p' at hstep ⊢
      cases hstep with
      | write hwrite => cases hwrite <;> rfl
      | copy hcopy => cases hcopy <;> rfl
      | offRing hp => cases hp
  | clear data position pc =>
      apply hnot
      generalize r.1 = o, r.2.1 = d', r.2.2 = p' at hstep ⊢
      cases hstep with
      | clear hclear => cases hclear <;> rfl
      | offRing hp => cases hp

theorem enable_toIdle {ok : Bool} {pc : EnablePc}
    (hfrom : d.status.state = .disabled ∨ d.status.state = .fault)
    (hto : (stepEnable d ok pc).2.1.status.state = .idle) : pc = .commit := by
  have hrest : d.status.state ≠ .idle := by
    rcases hfrom with hstate | hstate <;> simp [hstate]
  cases pc with
  | commit => rfl
  | check =>
      exfalso
      rcases hfrom with hstate | hstate
      · simp only [stepEnable, hstate] at hto
        split at hto <;> exact hrest hto
      · simp only [stepEnable, hstate] at hto
        split at hto
        · exact hrest hto
        · have hfault : CncState.fault = .idle := hto
          cases hfault
  | power pc =>
      exfalso
      cases pc with
      | check => exact hrest hto
      | enable => cases ok <;> exact hrest hto
      | pins => exact hrest hto
  | supplyOff pc =>
      exfalso
      cases pc with
      | check =>
          simp only [stepEnable, supplyOff] at hto
          split at hto <;> exact hrest hto
      | disable => cases ok <;> exact hrest hto
  | pinsOff => exact absurd hto hrest

theorem enable_commit_supply (d : Driver) (ok : Bool) :
    (stepEnable d ok .commit).2.1.supply40v = d.supply40v := by
  simp only [stepEnable]
  split
  · rfl
  · split <;> rfl

end Call

namespace Threads

/-- One operation at a time: a thread moves while no other is in a call. -/
def Sequential (T : Threads) (a : Action) : Prop :=
  ∀ i move, a = .thread i move → ∀ j, j ≠ i → T.threads j = .idle

def EnablesSucceed (T : Threads) (a : Action) : Prop :=
  ∀ i ok, a = .thread i (.next ok) → (T.threads i).raising = true → ok = true

/-- The step commits a run, or is the one in which an enable takes the driver out of
DISABLED or FAULT into IDLE. -/
def Succeeds (T : Threads) (a : Action) (r : List Notice × Threads) : Prop :=
  (∃ opts, .committed opts ∈ r.1) ∨
    ∃ i ok pc, a = .thread i (.next ok) ∧ T.threads i = .enable pc ∧
      (T.shared.status.state = .disabled ∨ T.shared.status.state = .fault) ∧
      r.2.shared.status.state = .idle

def PoweredAtSuccess (T : Threads) (a : Action) : Prop :=
  ∀ r, T.step a = some r → Succeeds T a r → r.2.shared.regulatorIsEnabled = true

def Powered (T : Threads) : Prop :=
  Pool.Holds (fun _ => True) (fun d _ p => p.powered = true → 0 < d.supply40v) T

theorem powered_probe (ringMb : Nat) (args : ScriptArgs) (lines : PinId → Bool) (railOn : Bool) :
    Powered (probe ringMb args lines railOn) := by
  refine ⟨trivial, ?_⟩
  intro i hp
  cases hp

theorem Powered.step {T : Threads} {a : Action} {r : List Notice × Threads} (h : Powered T)
    (hsequential : Sequential T a) (hsucceed : EnablesSucceed T a) (hstep : T.step a = some r) :
    Powered r.2 := by
  apply Pool.Holds.step h hstep
  · rintro i move d p rfl hnext
    refine ⟨trivial, ?_, ?_⟩
    · intro hp
      have hok (ok : Bool) (hmove : move = .next ok) (hraise : (T.threads i).raising = true) :
          ok = true := hsucceed i ok (by rw [hmove]) hraise
      rcases Call.next_powered hnext hok hp with hup | ⟨hbefore, hsame⟩
      · exact hup
      · exact Nat.lt_of_lt_of_eq (h.threads i hbefore) hsame.symm
    · intro j hj _ hp
      rw [hsequential i move rfl j hj] at hp
      cases hp
  · rintro event d rfl haround
    refine ⟨trivial, ?_⟩
    intro j hothers hp
    rw [Driver.around_supply haround]
    exact hothers hp

theorem Powered.atSuccess {T : Threads} (h : Powered T) (a : Action) : PoweredAtSuccess T a := by
  rintro r hstep (⟨opts, hmem⟩ | ⟨i, ok, pc, rfl, hpc, hfrom, hto⟩)
  · cases a with
    | surround event =>
        obtain ⟨d, haround, -⟩ := Pool.step_surround hstep
        exact absurd hmem (Driver.notMem_of_around haround rfl)
    | thread i move =>
        obtain ⟨d, p, hnext, hr⟩ := Pool.step_thread hstep
        obtain ⟨gen, was, hp, -, -, -, hout⟩ := Call.next_committed hnext hmem
        have hup : 0 < T.shared.supply40v := h.threads i (by rw [hp]; rfl)
        have hd : d = T.shared.commit opts := congrArg (fun q : Outcome => q.2.1) hout
        have hsame : d.supply40v = T.shared.supply40v := by
          rw [hd]
          exact congrArg Aside.supply40v (Driver.aside_commit T.shared opts)
        rw [hr]
        exact decide_eq_true (Nat.lt_of_lt_of_eq hup hsame.symm)
  · obtain ⟨d, p, hnext, hr⟩ := Pool.step_thread hstep
    rw [hpc] at hnext
    rw [hr] at hto ⊢
    have hout : Call.stepEnable T.shared ok pc = (r.1, d, p) := Option.some.inj hnext
    have hd : (Call.stepEnable T.shared ok pc).2.1 = d := by rw [hout]
    have hcommit : pc = .commit := by
      apply Call.enable_toIdle hfrom
      rw [hd]
      exact hto
    subst hcommit
    have hup : 0 < T.shared.supply40v := h.threads i (by rw [hpc]; rfl)
    have hsame : d.supply40v = T.shared.supply40v := by
      rw [← hd]
      exact Call.enable_commit_supply T.shared ok
    exact decide_eq_true (Nat.lt_of_lt_of_eq hup hsame.symm)

/-- In every run that takes one operation at a time and in which each
`regulator_enable` succeeds, the supply is enabled at every success. -/
theorem powered_at_success {ringMb : Nat} {args : ScriptArgs} {lines : PinId → Bool}
    {railOn : Bool} {as : List Action}
    (hsequential : System.Along step Sequential as (probe ringMb args lines railOn))
    (hsucceed : System.Along step EnablesSucceed as (probe ringMb args lines railOn)) :
    System.Along step PoweredAtSuccess as (probe ringMb args lines railOn) := by
  have hguards := hsequential.and hsucceed
  have hinv := System.Along.invariant (I := Powered) ?_ (powered_probe ringMb args lines railOn)
    hguards
  · exact hinv.mono fun T a hT => hT.2.atSuccess a
  · intro T a r hT hguard hstep
    exact hT.step hguard.1 hguard.2 hstep

private theorem sequential_of_alone {i : Nat} {as : List Action} {T : Threads}
    (h : OnlyThreads [i] T) (has : as.all (moves [i]) = true) :
    System.Along step Sequential as T := by
  have hmoves : System.Along step (fun _ a => moves [i] a = true) as T :=
    System.along_of_forall (List.all_eq_true.mp has) T
  have halong := System.Along.invariant (I := OnlyThreads [i]) ?_ h hmoves
  · apply halong.mono
    rintro T a ⟨ha, honly⟩ k move rfl j hj
    have hk : k = i := List.mem_singleton.mp (mem_of_moves ha k move rfl)
    exact honly j fun hmem => hj ((List.mem_singleton.mp hmem).trans hk.symm)
  · intro T a r honly ha hstep
    exact honly.step (mem_of_moves ha) hstep

/-- An enable of a disabled board whose `regulator_enable` fails. -/
private def enableOnDeadRail : List Action :=
  call 0 .enable 2 ++ [.thread 0 (.next false), .thread 0 (.next true)]

private def deadRailCommit : Action := .thread 0 (.next true)

theorem powered_at_success_false :
    ¬∀ (ringMb : Nat) (args : ScriptArgs) (lines : PinId → Bool) (railOn : Bool)
      (as : List Action), System.Along step Sequential as (probe ringMb args lines railOn) →
      System.Along step PoweredAtSuccess as (probe ringMb args lines railOn) := by
  intro h
  have halong := h 1 _ _ false (enableOnDeadRail ++ [deadRailCommit])
    (sequential_of_alone (onlyThreads_bench [0]) (by decide))
  have hrun : ((System.execute step enableOnDeadRail bench).map fun q =>
      (q.2.shared.status.state, q.2.threads 0,
        (q.2.step deadRailCommit).map fun r =>
          (r.2.shared.status.state, r.2.shared.regulatorIsEnabled))) =
      some (.disabled, .enable .commit, some (.idle, false)) := by
    decide +kernel
  obtain ⟨q, hexec, hseen⟩ := Option.map_eq_some_iff.mp hrun
  injection hseen with hfrom hrest
  injection hrest with hpc hlast
  obtain ⟨r, hstep, hend⟩ := Option.map_eq_some_iff.mp hlast
  injection hend with hto hoff
  have hlastAlong := (halong.split hexec).2
  have hon := hlastAlong.1 r hstep (.inr ⟨0, true, .commit, rfl, hpc, .inl hfrom, hto⟩)
  rw [hoff] at hon
  cases hon

/-- A board is written to, and a start from DISABLED powers the rail on and commits. -/
theorem powered_at_success_start :
    System.Along step PoweredAtSuccess (callWrite 0 [0] ++ call 0 (.start .run) 15) bench ∧
      ∃ r, System.execute step (callWrite 0 [0] ++ call 0 (.start .run) 15) bench = some r ∧
        r.2.shared.status.state = .running := by
  have hrun : ((System.execute step (callWrite 0 [0] ++ call 0 (.start .run) 15) bench).map
      fun r => r.2.shared.status.state) = some .running := by decide +kernel
  obtain ⟨r, hexec, hstate⟩ := Option.map_eq_some_iff.mp hrun
  have hsucceed : System.Along step EnablesSucceed
      (callWrite 0 [0] ++ call 0 (.start .run) 15) bench := by
    apply (along_succeeds (by decide) bench).mono
    intro T a hall i ok ha hraise
    exact hall i ok ha (.inl hraise)
  refine ⟨powered_at_success (sequential_of_alone (onlyThreads_bench [0]) (by decide)) hsucceed,
    r, hexec, hstate⟩

end Threads

end Glowforge.Cnc
