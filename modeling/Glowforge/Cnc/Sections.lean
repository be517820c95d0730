import Glowforge.Cnc.Simulation

/-! Which section commits a run, and which one recovers from a fault: no other section
of a thread does, and nothing that happens around the threads. -/
namespace Glowforge.Cnc
open Foundation Sdma

def Notice.turning : Notice → Bool
  | .committed _ | .recovered => true
  | _ => false

namespace Call

variable {i : Nat} {d : Driver} {r : Outcome}

private theorem powerOn_turns (d : Driver) (ok : Bool) (here : PowerOn → Call) (after : Call)
    (pc : PowerOn) : (powerOn d ok here after pc).1.filter Notice.turning = [] := by
  cases pc <;> rfl

private theorem supplyOff_turns (d : Driver) (ok : Bool) (here : SupplyOff → Call)
    {after : Driver → Outcome} (hafter : ∀ d, (after d).1.filter Notice.turning = [])
    (pc : SupplyOff) : (supplyOff d ok here after pc).1.filter Notice.turning = [] := by
  cases pc with
  | check =>
      unfold supplyOff
      cases d.regulatorIsEnabled with
      | true => rfl
      | false => exact hafter d
  | disable => exact hafter _

private theorem start_turns {opts : CncRunOptions} {ok : Bool} {pc : StartPc}
    (h : stepStart i d opts ok pc = some r) (hpc : ∀ gen was, pc ≠ .commit gen was) :
    r.1.filter Notice.turning = [] := by
  cases pc with
  | commit gen was => exact absurd rfl (hpc gen was)
  | power gen was pc =>
      cases h
      exact powerOn_turns _ _ _ _ pc
  | supplyOff pc =>
      cases h
      exact supplyOff_turns _ _ _ (fun _ => rfl) pc
  | check =>
      simp only [stepStart] at h
      split at h <;> cases h <;> rfl
  | empty gen =>
      simp only [stepStart] at h
      split at h <;> cases h <;> rfl
  | verify gen =>
      simp only [stepStart] at h
      split at h <;> cases h <;> rfl
  | lock gen =>
      simp only [stepStart] at h
      split at h <;> cases h
      rfl
  | length gen =>
      simp only [stepStart] at h
      split at h
      · split at h <;> cases h <;> rfl
      · cases h
        rfl
  | regs gen =>
      simp only [stepStart] at h
      split at h <;> cases h <;> rfl
  | inhibit gen =>
      simp only [stepStart] at h
      split at h <;> cases h <;> rfl
  | unlock was e =>
      simp only [stepStart] at h
      split at h <;> cases h <;> rfl
  | sample =>
      cases h
      rfl
  | mailbox gen =>
      cases h
      rfl
  | wasPowered gen =>
      cases h
      rfl
  | duty gen was =>
      cases h
      rfl
  | refuse e =>
      cases h
      rfl
  | pinsOff =>
      cases h
      rfl

private theorem enable_turns (d : Driver) (ok : Bool) {pc : EnablePc} (hpc : pc ≠ .check) :
    (stepEnable d ok pc).1.filter Notice.turning = [] := by
  cases pc with
  | check => exact absurd rfl hpc
  | power pc => exact powerOn_turns _ _ _ _ pc
  | commit =>
      simp only [stepEnable]
      split
      · rfl
      · split <;> rfl
  | supplyOff pc => exact supplyOff_turns _ _ _ (fun _ => rfl) pc
  | pinsOff => rfl

private theorem disable_turns (d : Driver) (ok : Bool) (pc : DisablePc) :
    (stepDisable d ok pc).1.filter Notice.turning = [] := by
  cases pc with
  | check =>
      unfold stepDisable
      cases d.status.state <;> rfl
  | supplyOff pc => exact supplyOff_turns _ _ _ (fun _ => rfl) pc

private theorem halt_turns (d : Driver) : d.cncHalt.1.filter Notice.turning = [] := by
  unfold Driver.cncHalt
  cases d.status.state <;> rfl

private theorem setLaserLatch_turns (d : Driver) (value : Int) :
    (d.cncSetLaserLatch value).1.filter Notice.turning = [] := by
  unfold Driver.cncSetLaserLatch
  split
  · dsimp only
    split <;> rfl
  · rfl

private theorem close_turns (d : Driver) (pc : ClosePc) :
    (stepClose d pc).1.filter Notice.turning = [] := by
  cases pc with
  | state =>
      simp only [stepClose]
      split <;> rfl
  | halt => exact halt_turns d
  | relock =>
      simp only [stepClose]
      rw [List.filter_append, setLaserLatch_turns]
      rfl

private theorem z_turns (d : Driver) (direction : Bool) (pc : ZStepPc) :
    (stepZ d direction pc).1.filter Notice.turning = [] := by
  cases pc with
  | check =>
      unfold stepZ
      cases d.status.state <;> rfl
  | dir => rfl
  | rise => rfl
  | fall => rfl
  | dirOff => rfl

private theorem write_turns {data : List Byte} {ok : Bool} {pc : WritePc}
    (h : stepWrite i d data ok pc = some r) : r.1.filter Notice.turning = [] := by
  cases pc with
  | copy => cases h
  | leave e =>
      cases h
      rfl
  | lock =>
      simp only [stepWrite] at h
      split at h <;> cases h
      rfl
  | check =>
      simp only [stepWrite] at h
      split at h <;> cases h <;> rfl
  | sync =>
      simp only [stepWrite] at h
      split at h <;> cases h <;> rfl
  | room =>
      simp only [stepWrite] at h
      split at h <;> cases h <;> rfl
  | publish =>
      simp only [stepWrite] at h
      split at h <;> cases h <;> rfl

private theorem copy_turns {data : List Byte} {outcome : CopyOutcome}
    (h : stepCopy d data outcome = some r) : r.1.filter Notice.turning = [] := by
  have hcopied (outcome : CopyOutcome) :
      (stepCopy.copied d data outcome).1.filter Notice.turning = [] := by
    unfold stepCopy.copied
    split <;> rfl
  cases outcome with
  | all =>
      cases h
      exact hcopied .all
  | fault n spill =>
      simp only [stepCopy] at h
      split at h <;> cases h
      exact hcopied (.fault n spill)

private theorem clear_turns {data position ok : Bool} {pc : ClearPc}
    (h : stepClear i d data position ok pc = some r) : r.1.filter Notice.turning = [] := by
  cases pc with
  | leave e =>
      cases h
      rfl
  | lock =>
      simp only [stepClear] at h
      split at h <;> cases h
      rfl
  | check =>
      simp only [stepClear] at h
      split at h <;> cases h <;> rfl
  | clear =>
      simp only [stepClear] at h
      split at h <;> cases h <;> rfl

/-- A section that turns the run control is the last one of a start or the first one of
an enable. -/
theorem next_turning {p : Call} {move : Move} (h : next i d p move = some r)
    (hturn : r.1.filter Notice.turning ≠ []) :
    (∃ opts gen was, p = .start opts (.commit gen was) ∧ r = commitStart d opts gen was) ∨
    ∃ ok, move = .next ok ∧ p = .enable .check ∧ r = stepEnable d ok .check := by
  unfold next at h
  split at h
  · split at h <;> cases h <;> exact absurd rfl hturn
  · cases h
    exact absurd rfl hturn
  · cases h
    exact absurd rfl hturn
  · cases h
    exact absurd rfl hturn
  · cases h
    exact absurd rfl hturn
  · split at h <;> cases h
    exact absurd rfl hturn
  · cases h
    exact absurd rfl hturn
  · rename_i opts pc ok
    by_cases hpc : ∃ gen was, pc = .commit gen was
    · obtain ⟨gen, was, rfl⟩ := hpc
      cases h
      exact .inl ⟨opts, gen, was, rfl, rfl⟩
    · exact absurd (start_turns h fun gen was heq => hpc ⟨gen, was, heq⟩) hturn
  · rename_i pc ok
    cases h
    by_cases hpc : pc = .check
    · subst hpc
      exact .inr ⟨ok, rfl, rfl, rfl⟩
    · exact absurd (enable_turns d ok hpc) hturn
  · cases h
    exact absurd (disable_turns d _ _) hturn
  · cases h
    exact absurd (close_turns d _) hturn
  · cases h
    exact absurd (z_turns d _ _) hturn
  · exact absurd (write_turns h) hturn
  · exact absurd (copy_turns h) hturn
  · exact absurd (clear_turns h) hturn
  · cases h

private theorem turning_ne_nil {o : List Notice} {n : Notice} (hmem : n ∈ o)
    (hn : n.turning = true) : o.filter Notice.turning ≠ [] := by
  intro hnil
  have := List.mem_filter.mpr ⟨hmem, hn⟩
  rw [hnil] at this
  cases this

theorem next_committed {p : Call} {move : Move} {opts : CncRunOptions}
    (h : next i d p move = some r) (hmem : .committed opts ∈ r.1) :
    ∃ gen was, p = .start opts (.commit gen was) ∧ d.status.triggeredFaults = 0 ∧
      d.stopGeneration = gen ∧ (d.status.state = .idle ∨ d.status.state = .disabled) ∧
      r = ([.committed opts], d.commit opts, .start opts (.unlock was none)) := by
  rcases next_turning h (turning_ne_nil hmem rfl) with hstart | henable
  · obtain ⟨opts', gen, was, hp, hr⟩ := hstart
    unfold commitStart at hr
    by_cases hfaults : d.status.triggeredFaults ≠ 0
    · rw [if_pos hfaults] at hr
      rw [hr] at hmem
      cases hmem
    · rw [if_neg hfaults] at hr
      by_cases hmoved : d.stopGeneration ≠ gen ∨
          d.status.state ≠ .idle ∧ d.status.state ≠ .disabled
      · rw [if_pos hmoved] at hr
        rw [hr] at hmem
        cases hmem
      · rw [if_neg hmoved] at hr
        have hopts : opts = opts' := by
          rw [hr] at hmem
          have := List.mem_singleton.mp hmem
          injection this
        subst hopts
        obtain ⟨hgen, hstate⟩ := not_or.mp hmoved
        refine ⟨gen, was, hp, not_not.mp hfaults, not_not.mp hgen, ?_, hr⟩
        by_contra hother
        exact hstate (not_or.mp hother)
  · obtain ⟨ok, -, -, hr⟩ := henable
    rw [hr] at hmem
    unfold stepEnable at hmem
    cases hstate : d.status.state <;> simp only [hstate] at hmem
    · simp [ret] at hmem
    · simp [ret] at hmem
    · split at hmem <;> simp [ret] at hmem
    · split at hmem <;> simp [ret] at hmem
    · simp [ret] at hmem

theorem next_recovered {p : Call} {move : Move} (h : next i d p move = some r)
    (hmem : .recovered ∈ r.1) :
    ∃ ok, move = .next ok ∧ p = .enable .check ∧ d.status.state = .fault ∧
      d.liveFaults &&& ~~~d.ignoredFaults = 0 := by
  rcases next_turning h (turning_ne_nil hmem rfl) with hstart | henable
  · obtain ⟨opts', gen, was, hp, hr⟩ := hstart
    rw [hr] at hmem
    unfold commitStart at hmem
    split at hmem
    · cases hmem
    · split at hmem <;> simp at hmem
  · obtain ⟨ok, hmove, hp, hr⟩ := henable
    rw [hr] at hmem
    unfold stepEnable at hmem
    cases hstate : d.status.state <;> simp only [hstate] at hmem
    · simp [ret] at hmem
    · simp [ret] at hmem
    · split at hmem <;> simp [ret] at hmem
    · refine ⟨ok, hmove, hp, rfl, ?_⟩
      by_contra hlive
      rw [if_pos hlive] at hmem
      simp [ret] at hmem
    · simp [ret] at hmem

end Call

theorem Driver.around_turning {d : Driver} {event : Surrounding} {r : List Notice × Driver}
    (h : d.around event = some r) : r.1.filter Notice.turning = [] := by
  have hcase := happens h
  generalize r.1 = o, r.2 = d' at hcase ⊢
  cases hcase <;> rfl

theorem Driver.notMem_of_around {d : Driver} {event : Surrounding} {r : List Notice × Driver}
    (h : d.around event = some r) {n : Notice} (hn : n.turning = true) : n ∉ r.1 := by
  intro hmem
  have hturn := List.mem_filter.mpr ⟨hmem, hn⟩
  rw [around_turning h] at hturn
  cases hturn

namespace Threads

theorem step_recovered {T : Threads} {a : Action} {r : List Notice × Threads}
    (h : T.step a = some r) (hmem : .recovered ∈ r.1) :
    (∃ i ok, a = .thread i (.next ok) ∧ T.threads i = .enable .check) ∧
      T.shared.status.state = .fault ∧ T.shared.liveFaults &&& ~~~T.shared.ignoredFaults = 0 := by
  cases a with
  | thread i move =>
      obtain ⟨d, p, hnext, -⟩ := Pool.step_thread h
      obtain ⟨ok, hmove, hp, hstate, hlive⟩ := Call.next_recovered hnext hmem
      exact ⟨⟨i, ok, by rw [hmove], hp⟩, hstate, hlive⟩
  | surround event =>
      obtain ⟨d, haround, -⟩ := Pool.step_surround h
      exact absurd hmem (Driver.notMem_of_around haround rfl)

end Threads

end Glowforge.Cnc
