import Glowforge.Cnc.Registers
import Glowforge.Cnc.StartRace

/-! Starts made one at a time. A start on its way from its check to its commit then knows
that the driver does not run: nothing but that start commits. -/
namespace Glowforge.Cnc
open Foundation Sdma

/-- The sections of a start from its check to its commit. -/
def StartPc.underWay : StartPc → Bool
  | .sample => true
  | pc => pc.sampled.isSome

def StartPc.loaded : StartPc → Bool
  | .inhibit _ | .mailbox _ | .wasPowered _ | .power _ _ _ | .duty _ _ | .commit _ _ => true
  | _ => false

theorem StartPc.underWay_of_loaded {pc : StartPc} (h : pc.loaded = true) : pc.underWay = true := by
  cases pc <;> first | rfl | cases h

namespace Call

variable {i : Nat} {d d' : Driver} {p p' : Call} {o : List Notice} {move : Move}

def starting : Call → Bool
  | .start _ _ => true
  | _ => false

def underWay : Call → Bool
  | .start _ pc => pc.underWay
  | _ => false

theorem starting_of_underWay (h : p.underWay = true) : p.starting = true := by
  cases p with
  | start opts pc => rfl
  | _ => cases h

theorem starting_of_offRing (h : p.offRing = true) : p.starting = false := by
  cases p with
  | start opts pc => cases h
  | _ => rfl

theorem NextStep.starting (h : NextStep i d p move o d' p') (hp : p'.starting = true) :
    p.starting = true ∨ ∃ call, move = .start call := by
  cases h with
  | begin hbegin =>
      cases hbegin with
      | start hcall => exact .inr ⟨_, rfl⟩
      | offRing hoff =>
          rw [starting_of_offRing hoff] at hp
          cases hp
      | write hlen => cases hp
      | clear data position => cases hp
  | invalid e => cases hp
  | start hstep => exact .inl rfl
  | write hstep => cases hstep <;> cases hp
  | copy hstep => cases hstep <;> cases hp
  | clear hstep => cases hstep <;> cases hp
  | offRing hoff hp' hsupply =>
      rcases hp' with rfl | hp'
      · cases hp
      · rw [starting_of_offRing hp'] at hp
        cases hp

theorem StartStep.underWay {opts : CncRunOptions} {ok : Bool} {pc : StartPc}
    (h : StartStep i d opts ok pc o d' p') (hp : p'.underWay = true) :
    pc.underWay = true ∨ d.status.state ≠ .running := by
  cases h with
  | checked hstate =>
      apply Or.inr
      rcases hstate with hstate | hstate <;> rw [hstate] <;> decide
  | turnedAway hstate => cases hp
  | committed hclear hgen hstate => cases hp
  | commitRefused => cases hp
  | returned => cases hp
  | undo herr => cases hp
  | refused => cases hp
  | supplyCheck => cases hp
  | supplyIsOff => cases hp
  | supplyDisable => cases hp
  | pinsOff => cases hp
  | _ => exact .inl rfl

theorem NextStep.underWay (h : NextStep i d p move o d' p') (hp : p'.underWay = true) :
    p.underWay = true ∨ d.status.state ≠ .running := by
  cases h with
  | start hstep => exact hstep.underWay hp
  | begin hbegin =>
      cases hbegin with
      | start hcall => cases hp
      | offRing hoff =>
          have hstarting := starting_of_underWay hp
          rw [starting_of_offRing hoff] at hstarting
          cases hstarting
      | write hlen => cases hp
      | clear data position => cases hp
  | invalid e => cases hp
  | write hstep => cases hstep <;> cases hp
  | copy hstep => cases hstep <;> cases hp
  | clear hstep => cases hstep <;> cases hp
  | offRing hoff hp' hsupply =>
      rcases hp' with rfl | hp'
      · cases hp
      · have hstarting := starting_of_underWay hp
        rw [starting_of_offRing hp'] at hstarting
        cases hstarting

end Call

namespace Threads

/-- A start call is made only when no other is. -/
def Alone (T : Threads) (a : Action) : Prop :=
  ∀ i call, a = .thread i (.start call) → ∀ j, (T.threads j).starting = false

theorem alone_surround (T : Threads) (event : Surrounding) : Alone T (.surround event) := by
  intro i call heq
  cases heq

/-- One start at most, and the driver does not run while it is under way. -/
structure Solo (T : Threads) : Prop where
  one : ∀ i j, (T.threads i).starting = true → (T.threads j).starting = true → i = j
  waits : ∀ i, (T.threads i).underWay = true → T.shared.status.state ≠ .running

theorem solo_probe (ringMb : Nat) (args : ScriptArgs) (lines : PinId → Bool) (railOn : Bool) :
    Solo (probe ringMb args lines railOn) := by
  constructor
  · intro i j hi
    cases hi
  · intro i hi
    cases hi

theorem commits_of_running {i : Nat} {d : Driver} {p : Call} {move : Move} {r : Outcome}
    (h : Call.next i d p move = some r) (hrun : r.2.1.status.state = .running)
    (hrest : d.status.state ≠ .running) :
    ∃ opts gen was, p = .start opts (.commit gen was) ∧ r.1 = [.committed opts] ∧
      r.2.1 = d.commit opts ∧ r.2.2 = .start opts (.unlock was none) := by
  rcases Control.Step.running (Driver.next_simulated h) hrun with hbefore | ⟨opts, hmem⟩
  · exact absurd hbefore hrest
  · obtain ⟨gen, was, hp, -, -, -, hr⟩ := Call.next_committed h (List.mem_filter.mp hmem).1
    rw [hr]
    exact ⟨opts, gen, was, hp, rfl, rfl, rfl⟩

theorem Solo.step {T : Threads} {a : Action} {r : List Notice × Threads} (h : Solo T)
    (halone : Alone T a) (hstep : T.step a = some r) : Solo r.2 := by
  cases a with
  | surround event =>
      obtain ⟨d, haround, hr⟩ := Pool.step_surround hstep
      rw [hr]
      exact ⟨h.one, fun i hi hrun => h.waits i hi (running_of_around haround hrun)⟩
  | thread i move =>
      obtain ⟨d, p, hnext, hr⟩ := Pool.step_thread hstep
      have hnextStep : Call.NextStep i T.shared (T.threads i) move r.1 d p :=
        Call.nextStep_of_next hnext
      have hother {j : Nat} (hj : j ≠ i) : r.2.threads j = T.threads j := by
        rw [hr]
        exact Function.update_of_ne hj _ _
      have hself : r.2.threads i = p := by
        rw [hr]
        exact Function.update_self _ _ _
      -- a start that begins finds no other
      have hcrowd {j : Nat} (hj : j ≠ i) (hi : p.starting = true)
          (hstarting : (T.threads j).starting = true) : False := by
        rcases hnextStep.starting hi with hbefore | ⟨call, rfl⟩
        · exact hj (h.one j i hstarting hbefore)
        · have hnone := halone i call rfl j
          rw [hstarting] at hnone
          cases hnone
      constructor
      · intro j k hj hk
        by_cases hji : j = i <;> by_cases hki : k = i
        · rw [hji, hki]
        · rw [hji, hself] at hj
          rw [hother hki] at hk
          exact (hcrowd hki hj hk).elim
        · rw [hki, hself] at hk
          rw [hother hji] at hj
          exact (hcrowd hji hk hj).elim
        · rw [hother hji] at hj
          rw [hother hki] at hk
          exact h.one j k hj hk
      · intro j hj hrun
        have hran : d.status.state = .running := by
          rw [hr] at hrun
          exact hrun
        by_cases hrest : T.shared.status.state = .running
        · by_cases hji : j = i
          · rw [hji, hself] at hj
            rcases hnextStep.underWay hj with hbefore | hstate
            · exact h.waits i hbefore hrest
            · exact hstate hrest
          · rw [hother hji] at hj
            exact h.waits j hj hrest
        · obtain ⟨opts, gen, was, hp, -, -, hdone⟩ := commits_of_running hnext hran hrest
          have hp' : p = .start opts (.unlock was none) := hdone
          by_cases hji : j = i
          · rw [hji, hself, hp'] at hj
            cases hj
          · rw [hother hji] at hj
            exact hji (h.one j i (Call.starting_of_underWay hj) (by rw [hp]; rfl))

end Threads

end Glowforge.Cnc
