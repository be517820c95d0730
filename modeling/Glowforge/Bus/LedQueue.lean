import Glowforge.Bus.RegisterFile
import Glowforge.Foundation.System
import Mathlib.Tactic.FinCases

/-! The work queue of the PIC's LEDs (`pic_leds.c`). A brightness may be set where nothing can
sleep, so the write of its register is queued; the queue is the driver's own and ordered, one
work running at a time, in between the calls of everyone else. -/
namespace Glowforge.Bus
open Foundation

def picLedMaxBrightness : Nat := 1023

structure PicLedWork where
  reg : PicRegister
  value : PicValue
  deriving DecidableEq, Repr

def PicLedWork.call (w : PicLedWork) : PicCall := .writeOneRegister w.reg w.value

/-- The driver with its queue, which is there from `pic_register_leds` to
`pic_unregister_leds`, and the device. -/
structure LedSystem (σ : Type) where
  ledWq : Option (List PicLedWork)
  pic : PicData
  device : σ

/-- A brightness is set, and the work for it is allocated or not; the worker takes the first
work; another context makes a call; the queue is allocated; it is dropped, once it has drained. -/
inductive LedAction where
  | picLedSet (reg : PicRegister) (brightness : Nat) (allocated : Bool)
  | picLedSetWork
  | call (call : PicCall)
  | allocOrderedWorkqueue
  | destroyWorkqueue
  deriving DecidableEq, Repr

inductive LedObs where
  | queued (w : PicLedWork)
  | worked (w : PicLedWork) (result : Except Errno (List PicValue))
  | called (call : PicCall) (result : Except Errno (List PicValue))
  deriving DecidableEq

namespace LedSystem

variable {σ : Type}

def step (spi : Spi σ) (S : LedSystem σ) : LedAction → Option (List LedObs × LedSystem σ)
  | .picLedSet reg brightness allocated =>
      let value : PicValue := BitVec.ofNat 16 (min brightness picLedMaxBrightness)
      match S.ledWq, allocated with
      | some works, true =>
          some ([.queued ⟨reg, value⟩], { S with ledWq := some (works ++ [⟨reg, value⟩]) })
      | _, _ => some ([], S)
  | .picLedSetWork =>
      match S.ledWq with
      | some (w :: works) =>
          let r := w.call.run spi S.pic S.device
          some ([.worked w r.1], ⟨some works, r.2.1, r.2.2⟩)
      | _ => none
  | .call call =>
      let r := call.run spi S.pic S.device
      some ([.called call r.1], ⟨S.ledWq, r.2.1, r.2.2⟩)
  | .allocOrderedWorkqueue =>
      match S.ledWq with
      | none => some ([], { S with ledWq := some [] })
      | some _ => none
  | .destroyWorkqueue =>
      match S.ledWq with
      | some [] => some ([], { S with ledWq := none })
      | _ => none

def waiting (S : LedSystem σ) : List PicLedWork := S.ledWq.getD []

end LedSystem

namespace LedObs

def queuedWork : LedObs → Option PicLedWork
  | .queued w => some w
  | _ => none

def workedWork : LedObs → Option PicLedWork
  | .worked w _ => some w
  | _ => none

/-- The works on a register did not fail, and no other call could have written it. -/
def Heard (reg : PicRegister) : LedObs → Prop
  | .queued _ => True
  | .worked w result => w.reg = reg → ∀ e, result ≠ .error (.transfer e)
  | .called call _ => ∀ o ∈ call.asked, ¬o.Writes reg.ctorIdx

end LedObs

def valuesFor (reg : PicRegister) (works : List PicLedWork) : List PicValue :=
  (works.filter (·.reg = reg)).map (·.value)

def settled (reg : PicRegister) (works : List PicLedWork) (v : PicValue) : PicValue :=
  (valuesFor reg works).getLast?.getD v

theorem settled_append (reg : PicRegister) (works more : List PicLedWork) (v : PicValue) :
    settled reg (works ++ more) v = settled reg more (settled reg works v) := by
  unfold settled valuesFor
  rw [List.filter_append, List.map_append, List.getLast?_append]
  cases (List.map _ (more.filter _)).getLast? <;> rfl

theorem settled_singleton (reg : PicRegister) (w : PicLedWork) (v : PicValue) :
    settled reg [w] v = if w.reg = reg then w.value else v := by
  unfold settled valuesFor
  by_cases hreg : w.reg = reg
  · rw [if_pos hreg, List.filter_cons_of_pos (by simpa using hreg)]
    rfl
  · rw [if_neg hreg, List.filter_cons_of_neg (by simpa using hreg)]
    rfl

theorem PicRegister.ctorIdx_inj {r r' : PicRegister} (h : r.ctorIdx = r'.ctorIdx) : r = r' := by
  cases r <;> cases r' <;> first | rfl | contradiction

section Runs

variable {σ : Type} {D : Device σ} {value : σ → Nat → PicValue} {output : Nat → Prop}

theorem PicCall.run_heard (K : Keeps D value output) {reg : Nat} (hreg : output reg)
    {call : PicCall} {self : PicData} {s : σ} (h : call.Heard reg (call.run D.spi self s).1) :
    value (call.run D.spi self s).2.2 reg = lastWritten reg call.asked (value s reg) := by
  obtain ⟨d, hrun, -⟩ := call.run_eq D (self.shows_seen s)
  rw [hrun] at h ⊢
  exact PicCall.meaning_heard K hreg h

theorem PicLedWork.lastWritten (w : PicLedWork) (reg : PicRegister) (v : PicValue) :
    Bus.lastWritten reg.ctorIdx w.call.asked v = settled reg [w] v := by
  rw [settled_singleton]
  change (if w.reg.ctorIdx = reg.ctorIdx then w.value else v) = _
  exact if_congr ⟨PicRegister.ctorIdx_inj, congrArg _⟩ rfl rfl

theorem PicLedWork.heard (w : PicLedWork) (reg : PicRegister)
    {result : Except Errno (List PicValue)}
    (h : w.reg = reg → ∀ e, result ≠ .error (.transfer e)) : w.call.Heard reg.ctorIdx result := by
  by_cases hreg : w.reg = reg
  · exact .inl (h hreg)
  · refine .inr fun o ho hwrites => ?_
    rcases List.mem_pair.mp ho with rfl | rfl
    · exact hreg (PicRegister.ctorIdx_inj hwrites)
    · exact hwrites

/-- What is queued has been worked off or waits, in the order it was queued; and a register has
the last value worked off for it. -/
structure Drains (value : σ → Nat → PicValue) (reg : PicRegister) (v : PicValue)
    (before : List LedObs) (S : LedSystem σ) : Prop where
  order : before.filterMap LedObs.queuedWork = before.filterMap LedObs.workedWork ++ S.waiting
  value : value S.device reg.ctorIdx = settled reg (before.filterMap LedObs.workedWork) v

theorem LedSystem.step_drains (K : Keeps D value output) {reg : PicRegister}
    (hreg : output reg.ctorIdx) {v : PicValue} {before : List LedObs} {S : LedSystem σ}
    {a : LedAction} {r : List LedObs × LedSystem σ} (hI : Drains value reg v before S)
    (hheard : ∀ q, S.step D.spi a = some q → ∀ o ∈ q.1, o.Heard reg)
    (hstep : S.step D.spi a = some r) : Drains value reg v (before ++ r.1) r.2 := by
  have hquiet := hheard r hstep
  obtain ⟨horder, hvalue⟩ := hI
  cases a with
  | picLedSet reg' brightness allocated =>
      simp only [step] at hstep
      split at hstep
      · next works hworks =>
          cases hstep
          refine ⟨?_, ?_⟩
          · rw [List.filterMap_append, List.filterMap_append, horder]
            simp only [waiting, hworks]
            simp [LedObs.queuedWork, LedObs.workedWork]
          · rw [List.filterMap_append]
            exact hvalue.trans (congrArg (settled reg · v) (List.append_nil _).symm)
      · cases hstep
        rw [List.append_nil]
        exact ⟨horder, hvalue⟩
  | picLedSetWork =>
      simp only [step] at hstep
      split at hstep
      · next w works hworks =>
          cases hstep
          have hheard := w.heard reg (hquiet _ List.mem_cons_self)
          refine ⟨?_, ?_⟩
          · rw [List.filterMap_append, List.filterMap_append, horder]
            simp [waiting, hworks, LedObs.queuedWork, LedObs.workedWork]
          · rw [List.filterMap_append, settled_append, ← hvalue]
            exact (PicCall.run_heard K hreg hheard).trans (w.lastWritten reg _)
      · contradiction
  | call call =>
      simp only [step] at hstep
      cases hstep
      have hunwritten : ∀ o ∈ call.asked, ¬o.Writes reg.ctorIdx := hquiet _ List.mem_cons_self
      refine ⟨?_, ?_⟩
      · rw [List.filterMap_append, List.filterMap_append, horder, List.append_assoc,
          List.append_assoc]
        exact congrArg (_ ++ ·) (List.append_nil S.waiting)
      · rw [List.filterMap_append, settled_append, ← hvalue]
        exact (PicCall.run_heard K hreg (.inr hunwritten)).trans (lastWritten_unwritten hunwritten _)
  | allocOrderedWorkqueue =>
      simp only [step] at hstep
      split at hstep
      · next hnone =>
          cases hstep
          rw [List.append_nil]
          refine ⟨?_, hvalue⟩
          rw [horder, waiting, hnone]
          rfl
      · contradiction
  | destroyWorkqueue =>
      simp only [step] at hstep
      split at hstep
      · next hempty =>
          cases hstep
          rw [List.append_nil]
          refine ⟨?_, hvalue⟩
          rw [horder, waiting, hempty]
          rfl
      · contradiction

/-- However the brightnesses of all the LEDs, the worker and the calls of others interleave: a
LED whose works all reach the device, and whose register no other call writes, has the last
brightness that was queued for it once the queue has drained. -/
theorem led_settles (K : Keeps D value output) (reg : PicRegister) (hreg : output reg.ctorIdx)
    (as : List LedAction) (S : LedSystem σ) {S' : LedSystem σ} {out : List LedObs} (hempty : S.waiting = [])
    (hexec : System.execute (LedSystem.step D.spi) as S = some (out, S'))
    (hheard : ∀ o ∈ out, o.Heard reg) (hdrained : S'.waiting = []) :
    value S'.device reg.ctorIdx =
      ((valuesFor reg (out.filterMap LedObs.queuedWork)).getLast?).getD (value S.device reg.ctorIdx) := by
  have hstart : Drains value reg (value S.device reg.ctorIdx) [] S := ⟨hempty.symm, rfl⟩
  have hend := System.execute_collects (f := fun o => [o])
    (fun before S a r hI hguard hstep => by
      rw [List.flatMap_singleton']
      exact LedSystem.step_drains K hreg hI hguard hstep)
    hstart (System.along_of_output hexec hheard) hexec
  rw [List.nil_append, List.flatMap_singleton'] at hend
  obtain ⟨horder, hvalue⟩ := hend
  rw [hdrained, List.append_nil] at horder
  rw [hvalue, horder]
  rfl

/-- Two LEDs, one of them set twice, with a read in between. -/
def twoLeds : List LedAction :=
  [.picLedSet .buttonLed1 40 true, .picLedSet .lidLed 2000 true, .picLedSetWork,
    .call (.readOneRegister .lidLed), .picLedSet .buttonLed1 80 true, .picLedSet .lidLed 9 false,
    .picLedSetWork, .picLedSetWork, .destroyWorkqueue]

theorem led_settles_two :
    ∃ S' out, System.execute (LedSystem.step outputBank.spi) twoLeds
      ⟨some [], ⟨⟨fun _ => 0xff⟩, fun _ => 0xff, 0⟩, fun _ => 3⟩ = some (out, S') ∧
        S'.device 12 = 80 := by
  refine ⟨_, [.queued ⟨.buttonLed1, 40⟩, .queued ⟨.lidLed, 1023⟩,
    .worked ⟨.buttonLed1, 40⟩ (.ok []), .called (.readOneRegister .lidLed) (.ok [3]),
    .queued ⟨.buttonLed1, 80⟩, .worked ⟨.lidLed, 1023⟩ (.ok []),
    .worked ⟨.buttonLed1, 80⟩ (.ok [])], rfl, ?_⟩
  have hsettles := led_settles outputBank_keeps .buttonLed1 (by decide) twoLeds
    ⟨some [], ⟨⟨fun _ => 0xff⟩, fun _ => 0xff, 0⟩, fun _ => 3⟩ rfl rfl
    (by
      intro o ho
      fin_cases ho
      · trivial
      · trivial
      · rintro - e h
        cases h
      · intro o ho
        rw [List.mem_singleton.mp ho]
        exact id
      · trivial
      · rintro - e h
        cases h
      · rintro - e h
        cases h) rfl
  exact hsettles

end Runs

end Glowforge.Bus
