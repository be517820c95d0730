import Glowforge.Foundation.System
import Mathlib.Data.BitVec

/-! The remote-interlock latch drive (`cnc_interlock.c`): the policy holds the latch line
high, which blocks emission, unless the loop is observed closed; and the switch devices
that report the loop, each with its own reading. -/
namespace Glowforge.Cnc
open Foundation

def evSw : BitVec 32 := 5

def cncInterlockSwCode : BitVec 32 := 5

structure CncInterlock where
  attached : BitVec 32
  loopOpen : Bool
  level : Int
  deriving DecidableEq, Repr

theorem toInt_sub_one {x : BitVec 32} (h : 0 < x.toInt) : (x - 1).toInt = x.toInt - 1 := by
  rw [BitVec.toInt_eq_toNat_cond] at h ⊢
  rw [BitVec.toInt_eq_toNat_cond]
  bv_omega

namespace CncInterlock

/-- `cnc_interlock_level` -/
def wanted (il : CncInterlock) : Int :=
  if 0 < il.attached.toInt ∧ il.loopOpen = false then 0 else 1

/-- `cnc_interlock_apply`, with the levels it drives. -/
def apply (il : CncInterlock) : List Int × CncInterlock :=
  if il.wanted = il.level then ([], il) else ([il.wanted], { il with level := il.wanted })

def init : List Int × CncInterlock := apply ⟨0, true, -1⟩

def attach (il : CncInterlock) (loopOpen : Bool) : List Int × CncInterlock :=
  apply { il with attached := il.attached + 1, loopOpen := loopOpen }

def detach (il : CncInterlock) : List Int × CncInterlock :=
  apply { il with attached := if 0 < il.attached.toInt then il.attached - 1 else il.attached }

def event (il : CncInterlock) (type code : BitVec 32) (value : Int) : List Int × CncInterlock :=
  if type ≠ evSw ∨ code ≠ cncInterlockSwCode then ([], il)
  else apply { il with loopOpen := decide (value ≠ 0) }

theorem wanted_eq_zero_iff {il : CncInterlock} :
    il.wanted = 0 ↔ 0 < il.attached.toInt ∧ il.loopOpen = false := by
  simp [wanted]

theorem apply_spec (il : CncInterlock) :
    il.apply.2 = { il with level := il.wanted } ∧ il.apply.1.getLastD il.level = il.wanted := by
  unfold apply
  split
  · rename_i hsame
    simp [hsame]
  · simp

end CncInterlock

/-- The interlock with its line and the switch devices attached to it, each with the loop
state that it read last: true while the loop is open. -/
structure Interlock (δ : Type*) where
  il : CncInterlock
  line : Int
  readings : List (δ × Bool)
  deriving DecidableEq, Repr

inductive InterlockAction (δ : Type*) where
  | attach (dev : δ) (loopOpen : Bool)
  | detach (dev : δ)
  | event (dev : δ) (type code : BitVec 32) (value : Int)

namespace Interlock

variable {δ : Type*}

def start : Interlock δ := ⟨CncInterlock.init.2, CncInterlock.init.1.getLastD 0, []⟩

/-- The policy has run, and the driver has written what it drives. -/
def drive (s : Interlock δ) (r : List Int × CncInterlock) (readings : List (δ × Bool)) :
    List Int × Interlock δ :=
  (r.1, ⟨r.2, r.1.getLastD s.line, readings⟩)

/-- A released line means that an attached device has read the loop closed. -/
def Observed (s : Interlock δ) : Prop := s.line = 0 → ∃ dev, (dev, false) ∈ s.readings

structure Settled (s : Interlock δ) : Prop where
  level : s.il.level = s.il.wanted
  line : s.line = s.il.level
  observed : s.Observed

theorem settled_start : Settled (start : Interlock δ) := by
  refine ⟨rfl, rfl, ?_⟩
  intro hlow
  cases hlow

theorem drive_apply (s : Interlock δ) {il : CncInterlock} (readings : List (δ × Bool))
    (hline : s.line = il.level) :
    s.drive il.apply readings =
      (il.apply.1, ⟨{ il with level := il.wanted }, il.wanted, readings⟩) := by
  obtain ⟨hil, hlast⟩ := il.apply_spec
  rw [drive, hil, hline, hlast]

/-- The policy leaves the line observed exactly when a reading bears out a release. -/
theorem observed_apply_iff (il : CncInterlock) (readings : List (δ × Bool)) :
    Observed ⟨{ il with level := il.wanted }, il.wanted, readings⟩ ↔
      (0 < il.attached.toInt → il.loopOpen = false → ∃ dev, (dev, false) ∈ readings) := by
  unfold Observed
  simp only [CncInterlock.wanted_eq_zero_iff, and_imp]

theorem Settled.of_apply {il : CncInterlock} {readings : List (δ × Bool)}
    (h : 0 < il.attached.toInt → il.loopOpen = false → ∃ dev, (dev, false) ∈ readings) :
    Settled ⟨{ il with level := il.wanted }, il.wanted, readings⟩ :=
  ⟨rfl, rfl, (observed_apply_iff il readings).mpr h⟩

section Devices

variable [DecidableEq δ]

def attached (s : Interlock δ) (dev : δ) : Prop := ∃ r ∈ s.readings, r.1 = dev

instance (s : Interlock δ) (dev : δ) : Decidable (s.attached dev) :=
  inferInstanceAs (Decidable (∃ r ∈ s.readings, r.1 = dev))

def reported (readings : List (δ × Bool)) (dev : δ) (loopOpen : Bool) : List (δ × Bool) :=
  readings.map fun r => if r.1 = dev then (dev, loopOpen) else r

def others (readings : List (δ × Bool)) (dev : δ) : List (δ × Bool) :=
  readings.eraseP fun r => r.1 = dev

/-- A device reports while it is attached; an event about the interlock switch is its own
new reading. -/
def step (s : Interlock δ) : InterlockAction δ → Option (List Int × Interlock δ)
  | .attach dev loopOpen =>
      if s.attached dev then none
      else some (s.drive (s.il.attach loopOpen) ((dev, loopOpen) :: s.readings))
  | .detach dev =>
      if s.attached dev then some (s.drive s.il.detach (others s.readings dev)) else none
  | .event dev type code value =>
      if s.attached dev then
        let readings :=
          if type ≠ evSw ∨ code ≠ cncInterlockSwCode then s.readings
          else reported s.readings dev (decide (value ≠ 0))
        some (s.drive (s.il.event type code value) readings)
      else none

/-- A device that leaves a released line, with another still counted, leaves one that has
read the loop closed. -/
def LeavesClosed (s : Interlock δ) (a : InterlockAction δ) : Prop :=
  ∀ dev, a = .detach dev → s.attached dev → s.line = 0 → 1 < s.il.attached.toInt →
    ∃ other, (other, false) ∈ others s.readings dev

variable {s : Interlock δ} {r : List Int × Interlock δ}

theorem Settled.attach {dev : δ} {loopOpen : Bool} (h : Settled s)
    (hstep : s.step (.attach dev loopOpen) = some r) : Settled r.2 := by
  simp only [step] at hstep
  split at hstep <;> cases hstep
  rw [CncInterlock.attach, drive_apply s _ (by exact h.line)]
  apply Settled.of_apply
  rintro - rfl
  exact ⟨dev, List.mem_cons_self⟩

theorem Settled.event {dev : δ} {type code : BitVec 32} {value : Int} (h : Settled s)
    (hstep : s.step (.event dev type code value) = some r) : Settled r.2 := by
  simp only [step] at hstep
  split at hstep <;> cases hstep
  rename_i hattached
  unfold CncInterlock.event
  by_cases hother : type ≠ evSw ∨ code ≠ cncInterlockSwCode
  · simp only [if_pos hother]
    exact ⟨h.level, h.line, h.observed⟩
  · simp only [if_neg hother]
    rw [drive_apply s _ (by exact h.line)]
    apply Settled.of_apply
    rintro - hclosed
    obtain ⟨q, hq, hdev⟩ := hattached
    refine ⟨dev, List.mem_map.mpr ⟨q, hq, ?_⟩⟩
    rw [if_pos hdev, show decide (value ≠ 0) = false from hclosed]

theorem Settled.detach {dev : δ} (h : Settled s) (hstep : s.step (.detach dev) = some r) :
    (LeavesClosed s (.detach dev) ↔ r.2.Observed) ∧ (r.2.Observed → Settled r.2) := by
  simp only [step] at hstep
  split at hstep <;> cases hstep
  rename_i hattached
  rw [CncInterlock.detach, drive_apply s _ (by exact h.line)]
  refine ⟨?_, fun hobserved => ⟨rfl, rfl, hobserved⟩⟩
  rw [observed_apply_iff]
  have hlow : s.line = 0 ↔ 0 < s.il.attached.toInt ∧ s.il.loopOpen = false := by
    rw [h.line, h.level]
    exact CncInterlock.wanted_eq_zero_iff
  have hcount : 0 < (if 0 < s.il.attached.toInt then s.il.attached - 1
      else s.il.attached).toInt ↔ 1 < s.il.attached.toInt := by
    split
    · rename_i hpos
      rw [toInt_sub_one hpos]
      omega
    · omega
  constructor
  · intro hleaves hstill hclosed
    have htwo := hcount.mp hstill
    exact hleaves dev rfl hattached (hlow.mpr ⟨by omega, hclosed⟩) htwo
  · intro hobserved dev' hdev _ hreleased htwo
    cases hdev
    exact hobserved (hcount.mpr htwo) (hlow.mp hreleased).2

theorem Settled.step_iff {a : InterlockAction δ} (h : Settled s) :
    LeavesClosed s a ↔ ∀ r, s.step a = some r → r.2.Observed := by
  cases a with
  | attach dev loopOpen =>
      refine iff_of_true (fun dev' hdev => nomatch hdev) ?_
      intro r hstep
      exact (h.attach hstep).observed
  | event dev type code value =>
      refine iff_of_true (fun dev' hdev => nomatch hdev) ?_
      intro r hstep
      exact (h.event hstep).observed
  | detach dev =>
      constructor
      · intro hleaves r hstep
        exact (h.detach hstep).1.mp hleaves
      · intro hobserved dev' hdev hattached
        cases hdev
        have hstep : s.step (.detach dev) =
            some (s.drive s.il.detach (others s.readings dev)) := if_pos hattached
        exact (h.detach hstep).1.mpr (hobserved _ hstep) dev rfl hattached

theorem Settled.step {a : InterlockAction δ} (h : Settled s) (hleaves : LeavesClosed s a)
    (hstep : s.step a = some r) : Settled r.2 := by
  cases a with
  | attach dev loopOpen => exact h.attach hstep
  | event dev type code value => exact h.event hstep
  | detach dev =>
      obtain ⟨hiff, hsettled⟩ := h.detach hstep
      exact hsettled (hiff.mp hleaves)

/-- A run releases the line on an observed closed loop only, in every state it comes to,
exactly when each device that leaves a released line leaves a closed reading. -/
theorem released_on_closed_loop_iff (as : List (InterlockAction δ)) :
    System.Along step (fun s a => ∀ r, s.step a = some r → r.2.Observed) as start ↔
      System.Along step LeavesClosed as start := by
  apply Iff.symm
  apply System.along_iff (I := Settled)
  · intro s a h
    exact h.step_iff
  · intro s a r h hleaves hstep
    exact h.step hleaves hstep
  · exact settled_start

end Devices

/-- The device that has read the loop closed leaves, and the line stays released over one
that reads it open. -/
theorem released_on_closed_loop_false :
    ∃ r, System.execute step [.attach 0 true, .attach 1 false, .detach 1]
      (start : Interlock Nat) = some r ∧ r.2.line = 0 ∧ r.2.readings = [(0, true)] ∧
        ¬r.2.Observed := by
  refine ⟨_, rfl, rfl, rfl, ?_⟩
  intro hobserved
  obtain ⟨dev, hdev⟩ := hobserved rfl
  cases List.mem_singleton.mp hdev

end Interlock

end Glowforge.Cnc
