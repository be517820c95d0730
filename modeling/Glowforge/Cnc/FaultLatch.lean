import Glowforge.Cnc.RunScoped
import Glowforge.Cnc.Sections

/-! Faults: an asserted fault stays pending until the tasklet latches it, and a latched
one keeps the driver in FAULT until an enable finds the lines clear. -/
namespace Glowforge.Cnc
open Foundation Sdma

namespace FaultCondition

theorem bit_lt (f : FaultCondition) : f.bit < 8 := by
  cases f <;> decide

theorem bit_injective {f g : FaultCondition} (h : f.bit = g.bit) : f = g := by
  cases f <;> cases g <;> first | rfl | cases h

end FaultCondition

namespace Control

variable {c : Control} {f : FaultCondition}

def Pending (c : Control) (f : FaultCondition) : Prop := bit c.pendingFaults f.bit = true

def Triggered (c : Control) (f : FaultCondition) : Prop :=
  bit c.status.triggeredFaults f.bit = true

def Latched (c : Control) (f : FaultCondition) : Prop :=
  c.Triggered f ∧ c.status.state = .fault

def Kept (c : Control) (f : FaultCondition) : Prop := c.Pending f ∨ c.Latched f

/-- The triggered faults are fatal ones, and there are none but in FAULT. -/
structure FaultSafe (c : Control) : Prop where
  fatal : c.status.triggeredFaults &&& fatalFaultConditions = c.status.triggeredFaults
  fault : c.status.triggeredFaults ≠ 0 → c.status.state = .fault

/-! Only the interrupt handler, the tasklet and a recovery touch the masks. -/

def masks (c : Control) : Word × BitVec 8 := (c.pendingFaults, c.status.triggeredFaults)

theorem masks_stop (c : Control) (nextState : CncState) : (c.stop nextState).masks = c.masks := by
  unfold stop
  split <;> rfl

theorem masks_decelerate (c : Control) : c.decelerate.masks = c.masks := by
  unfold decelerate
  split <;> rfl

theorem masks_waypoint (c : Control) : c.waypoint.masks = c.masks := by
  unfold waypoint
  split
  · rw [masks_decelerate]
    rfl
  · rfl

theorem masks_accelerate (c : Control) : c.accelerate.masks = c.masks := by
  unfold accelerate
  split <;> rfl

theorem masks_commit (c : Control) (opts : CncRunOptions) : (c.commit opts).masks = c.masks := by
  unfold commit
  split
  · rw [masks_accelerate]
    rfl
  · rfl

theorem masks_unlock (c : Control) : c.unlock.masks = c.masks := by
  unfold unlock
  split <;> rfl

theorem pending_of_masks {c' : Control} (h : c'.masks = c.masks) : c'.Pending f ↔ c.Pending f := by
  unfold Pending
  rw [(Prod.mk.inj h).1]

theorem Triggered.ne_zero (h : c.Triggered f) : c.status.triggeredFaults ≠ 0 := by
  intro hzero
  unfold Triggered at h
  rw [hzero] at h
  cases (bit_zero f.bit).symm.trans h

theorem Triggered.latchFault (h : c.Triggered f) (g : FaultCondition) :
    (c.latchFault g).Triggered f := by
  unfold Control.latchFault
  split
  · unfold Triggered at h ⊢
    rw [bit_raise _ _ _ g.bit_lt, h, Bool.true_or]
  · exact h

theorem Pending.latchFault (h : c.Pending f) (g : FaultCondition) :
    if g = f then (c.latchFault g).Triggered f else (c.latchFault g).Pending f := by
  by_cases hg : g = f
  · subst hg
    rw [if_pos rfl]
    unfold Control.latchFault
    rw [if_pos (show bit c.pendingFaults g.bit = true from h)]
    unfold Triggered
    rw [bit_raise _ _ _ g.bit_lt, decide_eq_true rfl, Bool.or_true]
  · rw [if_neg hg]
    have hbit : f.bit ≠ g.bit := fun heq => hg (FaultCondition.bit_injective heq).symm
    have hlt : g.bit < 32 := Nat.lt_of_lt_of_le g.bit_lt (by decide)
    unfold Control.latchFault
    split
    · unfold Pending at h ⊢
      rw [bit_lower _ _ _ hlt, h, decide_eq_false hbit]
      rfl
    · exact h

private theorem Triggered.latchFold (h : c.Triggered f) (gs : List FaultCondition) :
    (gs.foldl Control.latchFault c).Triggered f := by
  induction gs generalizing c with
  | nil => exact h
  | cons g gs ih => exact ih (h.latchFault g)

theorem Triggered.latchFaults (h : c.Triggered f) : c.latchFaults.Triggered f :=
  h.latchFold FaultCondition.all

private theorem Pending.latchFold (h : c.Pending f) {gs : List FaultCondition} (hmem : f ∈ gs) :
    (gs.foldl Control.latchFault c).Triggered f := by
  induction gs generalizing c with
  | nil => cases hmem
  | cons g gs ih =>
      have hturn := h.latchFault g
      by_cases hg : g = f
      · rw [if_pos hg] at hturn
        exact hturn.latchFold gs
      · rw [if_neg hg] at hturn
        exact ih hturn ((List.mem_cons.mp hmem).resolve_left (Ne.symm hg))

theorem Pending.latchFaults (h : c.Pending f) : c.latchFaults.Triggered f :=
  h.latchFold f.mem_all

theorem latchFaults_fatal
    (h : c.status.triggeredFaults &&& fatalFaultConditions = c.status.triggeredFaults) :
    c.latchFaults.status.triggeredFaults &&& fatalFaultConditions =
      c.latchFaults.status.triggeredFaults := by
  have hraise (g : FaultCondition) (v : BitVec 8) (h : v &&& fatalFaultConditions = v) :
      raise v g.bit &&& fatalFaultConditions = raise v g.bit := by
    have hfatal : (1#8 <<< g.bit) &&& fatalFaultConditions = 1#8 <<< g.bit := by
      cases g <;> decide
    unfold raise
    rw [BitVec.and_or_distrib_right, h, hfatal]
  unfold Control.latchFaults
  generalize FaultCondition.all = gs
  induction gs generalizing c with
  | nil => exact h
  | cons g gs ih =>
      apply ih
      unfold Control.latchFault
      split
      · exact hraise g _ h
      · exact h

namespace FaultSafe

/-- Only the state and the triggered faults count, and an unfaulted driver may change
its state. -/
theorem frame {c' : Control} (h : c.FaultSafe)
    (htriggered : c'.status.triggeredFaults = c.status.triggeredFaults)
    (hstate : c.status.state = .fault → c'.status.state = .fault) : c'.FaultSafe where
  fatal := by
    rw [htriggered]
    exact h.fatal
  fault := by
    rw [htriggered]
    exact fun hfaults => hstate (h.fault hfaults)

theorem of_clear (h : c.status.triggeredFaults = 0) : c.FaultSafe where
  fatal := by
    rw [h]
    rfl
  fault hfaults := absurd h hfaults

theorem of_fault (hfatal : c.status.triggeredFaults &&& fatalFaultConditions =
    c.status.triggeredFaults) (hstate : c.status.state = .fault) : c.FaultSafe where
  fatal := hfatal
  fault _ := hstate

theorem clear (h : c.FaultSafe) (hstate : c.status.state ≠ .fault) :
    c.status.triggeredFaults = 0 := by
  by_contra hfaults
  exact hstate (h.fault hfaults)

theorem decelerate (h : c.FaultSafe) : c.decelerate.FaultSafe := by
  unfold Control.decelerate
  split
  · exact h
  · exact h.frame rfl id

theorem step {c' : Control} {o : List Notice} (h : c.FaultSafe) (hscoped : c.RunScoped)
    (hstep : Control.Step c o c') : c'.FaultSafe := by
  cases hstep with
  | keep => exact h
  | commit opts hclear hstate =>
      apply of_clear
      exact (Prod.mk.inj (c.masks_commit opts)).2.trans hclear
  | stop nextState hfrom hnext =>
      -- a deceleration is a run's, so no stop leaves FAULT
      have hstate : c.status.state ≠ .fault := by
        rcases hfrom with hstate | hdec
        · exact hstate
        · rw [hscoped.running_of_decelerating hdec]
          decide
      apply of_clear
      exact (Prod.mk.inj (c.masks_stop nextState)).2.trans (h.clear hstate)
  | decelerate hrun => exact h.decelerate
  | waypoint harmed =>
      unfold Control.waypoint
      split
      · apply decelerate
        exact h.frame rfl id
      · exact h.frame rfl id
  | accelerated hacc hdec => exact h.frame rfl id
  | unlock =>
      unfold Control.unlock
      split <;> exact h.frame rfl id
  | lock => exact h.frame rfl id
  | shutdown => exact h.frame rfl id
  | panic => exact h.frame rfl id
  | recover hstate => exact of_clear rfl
  | enable hclear hstate => exact of_clear (h.fatal.symm.trans hclear)
  | acknowledge hstate =>
      apply of_clear
      apply h.clear
      rw [hstate]
      decide
  | streaming b => exact h.frame rfl id
  | assert f => exact h.frame rfl id
  | latch hstate =>
      apply of_fault
      · exact latchFaults_fatal h.fatal
      · rw [latchFaults_state]
        exact hstate
  | fault hstate =>
      apply of_fault
      · exact latchFaults_fatal h.fatal
      · rfl

end FaultSafe

/-- While a fault is latched the driver stays in FAULT and commits no run, but for a
recovery. -/
theorem Latched.step {c' : Control} {o : List Notice} (h : c.Latched f) (hsafe : c.FaultSafe)
    (hscoped : c.RunScoped) (hstep : Control.Step c o c') (hkeep : .recovered ∉ o) :
    c'.Latched f ∧ ∀ opts, .committed opts ∉ o := by
  have hfaults := h.1.ne_zero
  cases hstep with
  | commit opts hclear hstate => exact absurd hclear hfaults
  | recover hstate => exact absurd List.mem_cons_self hkeep
  | enable hclear hstate => exact absurd (hsafe.fatal.symm.trans hclear) hfaults
  | stop nextState hfrom hnext =>
      rcases hfrom with hstate | hdec
      · exact absurd h.2 hstate
      · exact absurd (h.2.symm.trans (hscoped.running_of_decelerating hdec)) (by decide)
  | decelerate hrun => exact absurd (h.2.symm.trans hrun) (by decide)
  | waypoint harmed => exact absurd (h.2.symm.trans (hscoped.running_of_armed harmed)) (by decide)
  | accelerated hacc hdec =>
      exact absurd (h.2.symm.trans (hscoped.running_of_accelerating hacc)) (by decide)
  | acknowledge hstate => exact absurd (h.2.symm.trans hstate) (by decide)
  | fault hstate => exact absurd h.2 hstate
  | unlock =>
      refine ⟨?_, fun opts => by simp⟩
      unfold Control.unlock
      split <;> exact h
  | latch hstate =>
      refine ⟨⟨h.1.latchFaults, ?_⟩, fun opts => List.not_mem_nil⟩
      rw [latchFaults_state]
      exact hstate
  | assert f => exact ⟨h, fun opts => by simp⟩
  | keep => exact ⟨h, fun opts => List.not_mem_nil⟩
  | lock => exact ⟨h, fun opts => List.not_mem_nil⟩
  | shutdown => exact ⟨h, fun opts => List.not_mem_nil⟩
  | panic => exact ⟨h, fun opts => List.not_mem_nil⟩
  | streaming b => exact ⟨h, fun opts => List.not_mem_nil⟩

theorem Pending.step {c' : Control} {o : List Notice} (h : c.Pending f)
    (hstep : Control.Step c o c') : c'.Kept f := by
  cases hstep with
  | latch hstate =>
      refine .inr ⟨h.latchFaults, ?_⟩
      rw [latchFaults_state]
      exact hstate
  | fault hstate => exact .inr ⟨h.latchFaults, rfl⟩
  | assert g =>
      have hlt : g.bit < 32 := Nat.lt_of_lt_of_le g.bit_lt (by decide)
      apply Or.inl
      unfold Pending at h ⊢
      rw [bit_raise _ _ _ hlt, h, Bool.true_or]
  | commit opts hclear hstate => exact .inl ((pending_of_masks (c.masks_commit opts)).mpr h)
  | stop nextState hfrom hnext => exact .inl ((pending_of_masks (c.masks_stop nextState)).mpr h)
  | decelerate hrun => exact .inl ((pending_of_masks c.masks_decelerate).mpr h)
  | waypoint harmed => exact .inl ((pending_of_masks c.masks_waypoint).mpr h)
  | unlock => exact .inl ((pending_of_masks c.masks_unlock).mpr h)
  | keep => exact .inl h
  | accelerated hacc hdec => exact .inl h
  | lock => exact .inl h
  | shutdown => exact .inl h
  | panic => exact .inl h
  | recover hstate => exact .inl h
  | enable hclear hstate => exact .inl h
  | acknowledge hstate => exact .inl h
  | streaming b => exact .inl h

end Control

theorem Driver.bit_liveFaults (d : Driver) (f : FaultCondition) :
    bit d.liveFaults f.bit = !gpioGetValue d.pins f.gpio := by
  have hturn (m : Word) (g : FaultCondition) :
      bit (if gpioGetValue d.pins g.gpio then m else raise m g.bit) f.bit =
        (bit m f.bit || (decide (f = g) && !gpioGetValue d.pins f.gpio)) := by
    have hlt : g.bit < 32 := Nat.lt_of_lt_of_le g.bit_lt (by decide)
    by_cases hg : f = g
    · subst hg
      cases gpioGetValue d.pins f.gpio <;> simp [bit_raise _ _ _ hlt]
    · have hbit : f.bit ≠ g.bit := fun heq => hg (FaultCondition.bit_injective heq)
      cases gpioGetValue d.pins g.gpio <;> simp [bit_raise _ _ _ hlt, hg, hbit]
  have hzero : bit (0 : Word) f.bit = false := bit_zero f.bit
  unfold liveFaults FaultCondition.all
  rw [List.foldl_cons, List.foldl_cons, List.foldl_cons, List.foldl_nil, hturn, hturn, hturn, hzero]
  cases f <;> simp

namespace Threads

/-- An enable takes its snapshot in FAULT: every fault line that is not ignored reads
high. -/
def ClearSnapshot (T : Threads) (a : Action) : Prop :=
  (∃ i ok, a = .thread i (.next ok) ∧ T.threads i = .enable .check) ∧
  T.shared.status.state = .fault ∧
  ∀ f : FaultCondition, bit T.shared.ignoredFaults f.bit = false →
    gpioGetValue T.shared.pins f.gpio = true

def Clears (f : FaultCondition) (T : Threads) (a : Action) : Prop :=
  ClearSnapshot T a ∧ bit T.shared.status.triggeredFaults f.bit = true

theorem clearSnapshot_of_recovered {T : Threads} {a : Action} {r : List Notice × Threads}
    (h : T.step a = some r) (hmem : .recovered ∈ r.1) : ClearSnapshot T a := by
  obtain ⟨henable, hstate, hlive⟩ := step_recovered h hmem
  refine ⟨henable, hstate, ?_⟩
  intro f hignored
  have hbit : bit (T.shared.liveFaults &&& ~~~T.shared.ignoredFaults) f.bit = false := by
    rw [hlive]
    exact bit_zero f.bit
  have hlt : f.bit < 32 := Nat.lt_of_lt_of_le f.bit_lt (by decide)
  rw [bit_and, bit_not _ _ hlt, hignored, Driver.bit_liveFaults] at hbit
  simpa using hbit

def FaultSound (T : Threads) : Prop :=
  T.shared.control.RunScoped ∧ T.shared.control.FaultSafe

theorem FaultSound.step {T : Threads} {a : Action} {r : List Notice × Threads}
    (h : FaultSound T) (hstep : T.step a = some r) : FaultSound r.2 := by
  have hsim := step_simulated hstep
  exact ⟨h.1.step hsim, h.2.step h.1 hsim⟩

theorem faultSound_probe (ringMb : Nat) (args : ScriptArgs) (lines : PinId → Bool)
    (railOn : Bool) : FaultSound (probe ringMb args lines railOn) := by
  refine ⟨runScoped_probe ringMb args lines railOn, ?_, fun hfaults => if_pos hfaults⟩
  change (Driver.liveFaults _ &&& ~~~0#32).truncate 8 &&& fatalFaultConditions =
    (Driver.liveFaults _ &&& ~~~0#32).truncate 8
  unfold Driver.liveFaults FaultCondition.all
  rw [List.foldl_cons, List.foldl_cons, List.foldl_cons, List.foldl_nil]
  cases gpioGetValue _ FaultCondition.x.gpio <;> cases gpioGetValue _ FaultCondition.y1.gpio <;>
    cases gpioGetValue _ FaultCondition.y2.gpio <;> decide

theorem latched_step {T : Threads} {a : Action} {r : List Notice × Threads} {f : FaultCondition}
    (hsound : FaultSound T) (h : T.shared.control.Latched f) (hclears : ¬Clears f T a)
    (hstep : T.step a = some r) :
    r.2.shared.control.Latched f ∧ ∀ opts, .committed opts ∉ r.1 := by
  have hkeep : .recovered ∉ r.1 := by
    intro hmem
    exact hclears ⟨clearSnapshot_of_recovered hstep hmem, h.1⟩
  have hlatched := h.step hsound.2 hsound.1 (step_simulated hstep)
    fun hmem => hkeep (List.mem_filter.mp hmem).1
  refine ⟨hlatched.1, ?_⟩
  intro opts hmem
  exact hlatched.2 opts (List.mem_filter.mpr ⟨hmem, rfl⟩)

theorem kept_step {T : Threads} {a : Action} {r : List Notice × Threads} {f : FaultCondition}
    (hsound : FaultSound T) (h : T.shared.control.Kept f) (hclears : ¬Clears f T a)
    (hstep : T.step a = some r) : r.2.shared.control.Kept f := by
  rcases h with hpending | hlatched
  · exact hpending.step (step_simulated hstep)
  · exact .inr (latched_step hsound hlatched hclears hstep).1

theorem faultSound_reachable {ringMb : Nat} {args : ScriptArgs} {lines : PinId → Bool}
    {railOn : Bool} {T : Threads}
    (h : System.Reachable step (probe ringMb args lines railOn) T) : FaultSound T :=
  h.invariant (faultSound_probe ringMb args lines railOn) fun _ _ _ hsound hstep =>
    hsound.step hstep

private theorem kept_run {f : FaultCondition} {as : List Action} {T : Threads}
    {r : List Notice × Threads} (hsound : FaultSound T) (h : T.shared.control.Kept f)
    (halong : System.Along step (fun T a => ¬Clears f T a) as T)
    (hexec : System.execute step as T = some r) : r.2.shared.control.Kept f := by
  have hrun := System.execute_guarded
    (I := fun T : Threads => FaultSound T ∧ T.shared.control.Kept f) (P := fun _ => True)
    (fun T a r hinv hclears hstep => ?_) ⟨hsound, h⟩ halong hexec
  · exact hrun.1.2
  · exact ⟨⟨hinv.1.step hstep, kept_step hinv.1 hinv.2 hclears hstep⟩, fun _ _ => trivial⟩

private theorem latched_run {f : FaultCondition} {as : List Action} {T : Threads}
    {r : List Notice × Threads} (hsound : FaultSound T) (h : T.shared.control.Latched f)
    (halong : System.Along step (fun T a => ¬Clears f T a) as T)
    (hexec : System.execute step as T = some r) :
    r.2.shared.control.Latched f ∧ ∀ n ∈ r.1, ∀ opts, n ≠ .committed opts := by
  have hrun := System.execute_guarded
    (I := fun T : Threads => FaultSound T ∧ T.shared.control.Latched f)
    (P := fun n => ∀ opts, n ≠ .committed opts) (fun T a r hinv hclears hstep => ?_)
    ⟨hsound, h⟩ halong hexec
  · exact ⟨hrun.1.2, hrun.2⟩
  · obtain ⟨hlatched, hnone⟩ := latched_step hinv.1 hinv.2 hclears hstep
    refine ⟨⟨hinv.1.step hstep, hlatched⟩, ?_⟩
    rintro n hn opts rfl
    exact hnone opts hn

private theorem latched_of_tasklet {d : Driver} {f : FaultCondition}
    (h : d.control.Pending f) : d.faultTaskletFn.2.control.Latched f := by
  have htasklet : d.around .faultTasklet = some d.faultTaskletFn := rfl
  have hcase := Driver.happens htasklet
  generalize d.faultTaskletFn.1 = o, d.faultTaskletFn.2 = d' at hcase ⊢
  cases hcase with
  | nonePending hquiet =>
      have hpending : bit d.pendingFaults f.bit = true := h
      rw [hquiet f] at hpending
      cases hpending
  | faultsMore hpending hstate =>
      rw [Driver.control_processFaults]
      exact ⟨h.latchFaults, (d.control.latchFaults_state).trans hstate⟩
  | faults hpending hstate =>
      rw [Driver.control_driverStop, Driver.control_processFaults]
      refine ⟨?_, rfl⟩
      unfold Control.Triggered
      rw [(Prod.mk.inj (d.control.latchFaults.masks_stop .fault)).2]
      exact h.latchFaults

/-- In every reachable state a triggered fault means FAULT; what the tasklet finds
pending it triggers, and from there on the driver stays in FAULT and commits no run until
a clear snapshot; what the interrupt asserts stays pending or triggered until then. -/
theorem faults_latch {ringMb : Nat} {args : ScriptArgs} {lines : PinId → Bool}
    {railOn : Bool} {T : Threads}
    (h : System.Reachable step (probe ringMb args lines railOn) T) :
    (T.shared.status.triggeredFaults ≠ 0 → T.shared.status.state = .fault) ∧
    (∀ f r, bit T.shared.pendingFaults f.bit = true →
      T.step (.surround .faultTasklet) = some r →
      ∀ as r', System.execute step as r.2 = some r' →
        System.Along step (fun T a => ¬Clears f T a) as r.2 →
        bit r'.2.shared.status.triggeredFaults f.bit = true ∧
          r'.2.shared.status.state = .fault ∧ ∀ opts, .committed opts ∉ r'.1) ∧
    ∀ f r, gpioGetValue T.shared.pins f.gpio = false →
      bit T.shared.ignoredFaults f.bit = false →
      T.step (.surround (.faultIrq f)) = some r →
      ∀ as r', System.execute step as r.2 = some r' →
        System.Along step (fun T a => ¬Clears f T a) as r.2 →
        bit r'.2.shared.pendingFaults f.bit = true ∨
          bit r'.2.shared.status.triggeredFaults f.bit = true ∧
            r'.2.shared.status.state = .fault := by
  have hsound := faultSound_reachable h
  refine ⟨hsound.2.fault, ?_, ?_⟩
  · intro f r hpending htasklet as r' hexec halong
    have hafter : r.2.shared.control.Latched f := by
      cases htasklet
      exact latched_of_tasklet hpending
    obtain ⟨hlatched, hnone⟩ := latched_run (hsound.step htasklet) hafter halong hexec
    exact ⟨hlatched.1, hlatched.2, fun opts hmem => hnone _ hmem opts rfl⟩
  · intro f r hlow hignored hirq as r' hexec halong
    have hpending : r.2.shared.control.Pending f := by
      have hlt : f.bit < 32 := Nat.lt_of_lt_of_le f.bit_lt (by decide)
      cases hirq
      unfold Driver.cncFaultIrqHandler
      rw [if_neg (by rw [hlow]; decide), if_neg (by rw [hignored]; decide)]
      unfold Control.Pending
      exact (bit_raise _ _ _ hlt).trans (by rw [decide_eq_true rfl, Bool.or_true])
    exact kept_run (hsound.step hirq) (.inl hpending) halong hexec

private theorem along_surround (f : FaultCondition) (events : List Surrounding) (T : Threads) :
    System.Along step (fun T a => ¬Clears f T a) (events.map .surround) T := by
  have halong : System.Along step (fun _ a => ∀ i move, a ≠ PoolAction.thread i move)
      (events.map .surround) T := by
    apply System.along_of_forall (P := fun a => ∀ i move, a ≠ PoolAction.thread i move)
    intro a ha i move heq
    obtain ⟨event, _, rfl⟩ := List.mem_map.mp ha
    cases heq
  apply halong.mono
  rintro T a ha ⟨⟨⟨i, ok, heq, _⟩, _⟩, _⟩
  exact ha i (.next ok) heq

/-- A fault line drops while an enable of a disabled driver powers the steppers on: the
interrupt asserts the fault, and the tasklet latches it. -/
theorem faults_latch_duringEnable :
    ∃ T r q, System.Reachable step bench T ∧ T.threads 0 = .enable (.power .enable) ∧
      T.step (.surround (.faultIrq .x)) = some r ∧
      System.execute step [.surround .stop] r.2 = some q ∧
      (bit q.2.shared.pendingFaults FaultCondition.x.bit = true ∨
        bit q.2.shared.status.triggeredFaults FaultCondition.x.bit = true ∧
          q.2.shared.status.state = .fault) ∧
      ∃ r' q', r.2.step (.surround .faultTasklet) = some r' ∧
        System.execute step [.surround .halt, .surround .stop] r'.2 = some q' ∧
        q'.2.shared.status.state = .fault := by
  have hrun : ((System.execute step (call 0 .enable 2 ++ [.surround (.line .xFault false)])
      bench).bind fun s => (s.2.step (.surround (.faultIrq .x))).bind fun r =>
        (System.execute step [.surround .stop] r.2).bind fun q =>
          (r.2.step (.surround .faultTasklet)).bind fun r' =>
            (System.execute step [.surround .halt, .surround .stop] r'.2).map fun q' =>
              (s.2.threads 0, gpioGetValue s.2.shared.pins .xFault,
                bit s.2.shared.ignoredFaults 0, bit r.2.shared.pendingFaults 0)) =
      some (.enable (.power .enable), false, false, true) := by decide +kernel
  obtain ⟨s, hexec, hrest⟩ := Option.bind_eq_some_iff.mp hrun
  obtain ⟨r, hirq, hrest⟩ := Option.bind_eq_some_iff.mp hrest
  obtain ⟨q, hstop, hrest⟩ := Option.bind_eq_some_iff.mp hrest
  obtain ⟨r', htasklet, hrest⟩ := Option.bind_eq_some_iff.mp hrest
  obtain ⟨q', hhalt, hseen⟩ := Option.map_eq_some_iff.mp hrest
  injection hseen with hthread hseen
  injection hseen with hlow hseen
  injection hseen with hignored hpending
  have hreach : System.Reachable step bench s.2 := ⟨_, _, hexec⟩
  have hafter : System.execute step [.surround (.faultIrq .x)] s.2 = some (r.1 ++ [], r.2) := by
    rw [System.execute, hirq]
    rfl
  have hreach' : System.Reachable step bench r.2 := hreach.trans hafter
  have hkept := (faults_latch hreach).2.2 .x r hlow hignored hirq _ q hstop
    (along_surround .x [.stop] r.2)
  have hlatched := (faults_latch hreach').2.1 .x r' hpending htasklet _ q' hhalt
    (along_surround .x [.halt, .stop] r'.2)
  exact ⟨s.2, r, q, hreach, hthread, hirq, hstop, hkept, r', q', htasklet, hhalt, hlatched.2.1⟩

end Threads

end Glowforge.Cnc
