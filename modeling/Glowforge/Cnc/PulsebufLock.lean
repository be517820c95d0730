import Glowforge.Cnc.Steps
import Glowforge.Foundation.Mutex

/-! `pulsebuf_lock`: which sections hold it, and that one thread at a time does. While
a start holds it, nothing else commits a run. -/
namespace Glowforge.Cnc
open Foundation Sdma

/-- The sections of a start between its length check and its unlock. -/
def StartPc.holds : StartPc → Bool
  | .check | .sample | .empty _ | .verify _ | .lock _ | .supplyOff _ | .pinsOff => false
  | _ => true

def Call.holds : Call → Bool
  | .start _ pc => pc.holds
  | .write _ pc => decide (pc ≠ .lock)
  | .clear _ _ pc => decide (pc ≠ .lock)
  | _ => false

namespace Call

variable {i : Nat} {d d' : Driver} {p p' : Call} {o : List Notice} {move : Move}

theorem holds_of_offRing (h : p.offRing = true) : p.holds = false := by
  cases p with
  | enable pc => rfl
  | disable pc => rfl
  | close pc => rfl
  | zStep direction pc => rfl
  | _ => cases h

theorem holds_of_begins (h : Begins move p) : p.holds = false := by
  cases h with
  | offRing hp => exact holds_of_offRing hp
  | start hcall => rfl
  | write hlen => rfl
  | clear data position => rfl

/-- An operation off the ring leaves the ring and its lock alone. -/
theorem Supply.lock (h : Supply d p d') : d'.pulsebufLock = d.pulsebufLock := by
  cases h with
  | keep haside => exact congrArg Aside.pulsebufLock haside
  | raise hp haside => exact congrArg Aside.pulsebufLock haside
  | lower hp haside => exact congrArg Aside.pulsebufLock haside

theorem Supply.buf (h : Supply d p d') : d'.buf = d.buf := by
  cases h with
  | keep haside => exact congrArg Aside.buf haside
  | raise hp haside => exact congrArg Aside.buf haside
  | lower hp haside => exact congrArg Aside.buf haside

theorem lock_commit (d : Driver) (opts : CncRunOptions) :
    (d.commit opts).pulsebufLock = d.pulsebufLock :=
  congrArg Aside.pulsebufLock (Driver.aside_commit d opts)

theorem lock_regulatorEnable (d : Driver) (ok : Bool) :
    (d.regulatorEnable ok).pulsebufLock = d.pulsebufLock := by
  cases ok <;> rfl

theorem lock_regulatorDisable (d : Driver) (ok : Bool) :
    (d.regulatorDisable ok).pulsebufLock = d.pulsebufLock := by
  cases ok <;> rfl

theorem StartStep.uses {opts : CncRunOptions} {ok : Bool} {pc : StartPc}
    (h : StartStep i d opts ok pc o d' p') :
    Pool.MutexUse i d.pulsebufLock pc.holds d'.pulsebufLock p'.holds := by
  cases h with
  | locked hfree =>
      rw [hfree]
      exact .acquire
  | returned => exact .release
  | undo herr => exact .release
  | refused => exact .release
  | committed hclear hgen hstate =>
      rw [lock_commit]
      exact .keep
  | powerEnable =>
      rw [lock_regulatorEnable]
      exact .keep
  | supplyDisable =>
      rw [lock_regulatorDisable]
      exact .keep
  | powerPins => cases opts.preservePower <;> exact .keep
  | _ => exact .keep

theorem WriteStep.uses {data : List Byte} {ok : Bool} {pc : WritePc}
    (h : WriteStep i d data ok pc o d' p') :
    Pool.MutexUse i d.pulsebufLock (Call.write data pc).holds d'.pulsebufLock p'.holds := by
  cases h with
  | locked hfree =>
      rw [hfree]
      exact .acquire
  | left => exact .release
  | _ => exact .keep

theorem ClearStep.uses {data position ok : Bool} {pc : ClearPc}
    (h : ClearStep i d data position ok pc o d' p') :
    Pool.MutexUse i d.pulsebufLock (Call.clear data position pc).holds d'.pulsebufLock p'.holds := by
  cases h with
  | locked hfree =>
      rw [hfree]
      exact .acquire
  | left => exact .release
  | _ => exact .keep

theorem NextStep.uses (h : NextStep i d p move o d' p') :
    Pool.MutexUse i d.pulsebufLock p.holds d'.pulsebufLock p'.holds := by
  cases h with
  | begin hbegin =>
      rw [holds_of_begins hbegin]
      exact .keep
  | invalid e => exact .keep
  | start hstep => exact hstep.uses
  | write hstep => exact hstep.uses
  | copy hstep => cases hstep <;> exact .keep
  | clear hstep => exact hstep.uses
  | offRing hp hp' hsupply =>
      have hafter : p'.holds = false := by
        rcases hp' with rfl | hp'
        · rfl
        · exact holds_of_offRing hp'
      rw [holds_of_offRing hp, hafter, hsupply.lock]
      exact .keep

end Call

theorem Driver.around_lock {d : Driver} {event : Surrounding} {r : List Notice × Driver}
    (h : d.around event = some r) : r.2.pulsebufLock = d.pulsebufLock := by
  by_cases htick : ∃ fuel, event = .tick fuel
  · obtain ⟨fuel, rfl⟩ := htick
    obtain ⟨-, es, c, -, hr⟩ := tick_cases h
    rw [hr]
  · rcases around_aside h fun fuel heq => htick ⟨fuel, heq⟩ with haside | haside
    · exact congrArg Aside.pulsebufLock haside
    · exact congrArg Aside.pulsebufLock haside

namespace Threads

def Locked (T : Threads) : Prop := Pool.Owned Driver.pulsebufLock Call.holds T

theorem locked_probe (ringMb : Nat) (args : ScriptArgs) (lines : PinId → Bool) (railOn : Bool) :
    Locked (probe ringMb args lines railOn) := by
  intro i hi
  cases hi

theorem Locked.step {T : Threads} {a : Action} {r : List Notice × Threads} (h : Locked T)
    (hstep : T.step a = some r) : Locked r.2 := by
  apply Pool.Owned.step h _ _ hstep
  · intro i d p move o d' p' hnext
    exact (Call.nextStep_of_next hnext).uses
  · intro d event o d' haround
    exact Driver.around_lock haround

end Threads

end Glowforge.Cnc
