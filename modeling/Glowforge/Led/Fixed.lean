import Mathlib.Algebra.Group.Int.Defs
import Mathlib.Algebra.Group.Nat.Defs
import Mathlib.Data.Int.Order.Basic

/-! The 20.12 fixed point numbers of `ledtrig_smooth.c`. A number is its 32-bit word, and
every operation keeps the low 32 bits of its result. -/
namespace Glowforge.Led

def InRange (x : Int) : Prop := -2 ^ 31 ≤ x ∧ x < 2 ^ 31

instance (x : Int) : Decidable (InRange x) := inferInstanceAs (Decidable (_ ∧ _))

def s32 (x : Int) : Int := x.bmod (2 ^ 32)

def s16 (x : Int) : Int := x.bmod (2 ^ 16)

theorem s32_inRange (x : Int) : InRange (s32 x) := by
  have hlow := Int.le_bmod (x := x) (m := 2 ^ 32) (by decide)
  have hhigh := Int.bmod_lt (x := x) (m := 2 ^ 32) (by decide)
  unfold InRange s32
  omega

theorem s32_of_inRange {x : Int} (h : InRange x) : s32 x = x := by
  unfold InRange at h
  exact Int.bmod_eq_of_le (by omega) (by omega)

theorem s16_of_bounds {x : Int} (hlow : -2 ^ 15 ≤ x) (hhigh : x < 2 ^ 15) : s16 x = x :=
  Int.bmod_eq_of_le (by omega) (by omega)

def fracBits : Nat := 12

/-- The union `fixed`, as its `intval`. -/
structure Fixed where
  intval : Int
  inRange : InRange intval
  deriving DecidableEq

def toFixed (x : Int) : Fixed := ⟨s32 x, s32_inRange x⟩

@[simp] theorem toFixed_intval (x : Int) : (toFixed x).intval = s32 x := rfl

theorem toFixed_exact {x : Int} (h : InRange x) : (toFixed x).intval = x := s32_of_inRange h

theorem Fixed.ext {a b : Fixed} (h : a.intval = b.intval) : a = b := by
  cases a
  cases b
  cases h
  rfl

def Fixed.ipart (a : Fixed) : Int := a.intval >>> fracBits

def fixedInt (i : Int) : Fixed := toFixed (i * 2 ^ fracBits)

def fixadd (a b : Fixed) : Fixed := toFixed (a.intval + b.intval)

def fixsub (a b : Fixed) : Fixed := toFixed (a.intval - b.intval)

/-- The product of two words fits the `s64` it is shifted in. -/
def fixmul (a b : Fixed) : Fixed := toFixed ((a.intval * b.intval) >>> fracBits)

def fixdiv2 (a : Fixed) : Fixed := toFixed (a.intval >>> (1 : Nat))

def fixdiv4 (a : Fixed) : Fixed := toFixed (a.intval >>> (2 : Nat))

def abs32 (x : Int) : Int := s32 (if x < 0 then -x else x)

def fixeq (a b tolerance : Fixed) : Bool := abs32 (s32 (a.intval - b.intval)) ≤ tolerance.intval

def msecsPerUpdate : Nat := 20

/-- Timestep, in seconds: `FIXED(0, MSECS_PER_UPDATE*0.001)`, with the fraction cut off. -/
def dt : Fixed := toFixed (msecsPerUpdate * 2 ^ fracBits / 1000)

/-- Threshold for equality comparisons: `FIXED(0, 0.0625)`. -/
def epsilon : Fixed := toFixed (2 ^ fracBits / 16)

@[simp] theorem dt_intval : dt.intval = 81 := by decide

@[simp] theorem epsilon_intval : epsilon.intval = 256 := by decide

theorem shift_frac (x : Int) : x >>> fracBits = x / 4096 := by
  rw [Int.shiftRight_eq_div_pow]
  rfl

theorem fixadd_exact {a b : Fixed} (h : InRange (a.intval + b.intval)) :
    (fixadd a b).intval = a.intval + b.intval := toFixed_exact h

theorem fixsub_exact {a b : Fixed} (h : InRange (a.intval - b.intval)) :
    (fixsub a b).intval = a.intval - b.intval := toFixed_exact h

theorem fixmul_exact {a b : Fixed} (h : InRange (a.intval * b.intval / 4096)) :
    (fixmul a b).intval = a.intval * b.intval / 4096 := by
  rw [← shift_frac] at h ⊢
  exact toFixed_exact h

theorem fixdiv2_intval (a : Fixed) : (fixdiv2 a).intval = a.intval / 2 := by
  have hshift : a.intval >>> (1 : Nat) = a.intval / 2 := by
    rw [Int.shiftRight_eq_div_pow]
    rfl
  have hrange := a.inRange
  unfold fixdiv2
  rw [hshift]
  apply toFixed_exact
  unfold InRange at hrange ⊢
  omega

theorem fixdiv4_intval (a : Fixed) : (fixdiv4 a).intval = a.intval / 4 := by
  have hshift : a.intval >>> (2 : Nat) = a.intval / 4 := by
    rw [Int.shiftRight_eq_div_pow]
    rfl
  have hrange := a.inRange
  unfold fixdiv4
  rw [hshift]
  apply toFixed_exact
  unfold InRange at hrange ⊢
  omega

theorem Fixed.ipart_eq (a : Fixed) : a.ipart = a.intval / 4096 := shift_frac a.intval

theorem fixedInt_exact {i : Int} (hlow : -2 ^ 19 ≤ i) (hhigh : i < 2 ^ 19) :
    (fixedInt i).intval = i * 4096 := by
  have hpow : (2 : Int) ^ fracBits = 4096 := rfl
  unfold fixedInt
  rw [hpow]
  apply toFixed_exact
  unfold InRange
  omega

theorem fixeq_exact {a b tolerance : Fixed} (hlow : -2 ^ 31 < a.intval - b.intval)
    (hhigh : a.intval - b.intval < 2 ^ 31) :
    fixeq a b tolerance = true ↔
      -tolerance.intval ≤ a.intval - b.intval ∧ a.intval - b.intval ≤ tolerance.intval := by
  have hrange : InRange (a.intval - b.intval) := ⟨Int.le_of_lt hlow, hhigh⟩
  unfold fixeq abs32
  rw [decide_eq_true_iff, s32_of_inRange hrange]
  split
  · next hneg =>
      rw [s32_of_inRange (by unfold InRange; omega)]
      omega
  · next hpos =>
      rw [s32_of_inRange hrange]
      omega

end Glowforge.Led
