import Glowforge.Foundation.Oscillator
import Glowforge.Led.Smooth

/-! The motion of the simulation in exact arithmetic: the offset from the target, and how
fast it closes. The source moves just so while no operation leaves the range. -/
namespace Glowforge.Led
open Foundation

structure Motion where
  offset : Int
  velocity : Int
  accel : Int

namespace Motion

/-- Half a timestep of the acceleration. -/
def push (m : Motion) : Int := m.accel / 2 * 81 / 4096

def half (m : Motion) : Int := m.velocity + m.push

def travel (m : Motion) : Int := m.half * 81 / 4096

def spring (s : Int) (m : Motion) : Int := s ^ 2 * m.offset / 64

def damping (s : Int) (m : Motion) : Int := s * m.velocity / 4

def step (s : Int) (m : Motion) : Motion where
  offset := m.offset - m.travel
  velocity := m.half + (m.spring s - m.damping s) / 2 * 81 / 4096
  accel := m.spring s - m.damping s

@[simp] theorem step_offset (s : Int) (m : Motion) : (m.step s).offset = m.offset - m.travel := rfl

@[simp] theorem step_accel (s : Int) (m : Motion) :
    (m.step s).accel = m.spring s - m.damping s := rfl

theorem velocity_eq (m : Motion) : m.velocity = m.half - m.push := by
  unfold half
  omega

theorem step_velocity (s : Int) (m : Motion) :
    (m.step s).velocity = m.half + (m.step s).push := rfl

/-- From one timestep to the next, the half velocity takes two pushes. -/
theorem step_half (s : Int) (m : Motion) : (m.step s).half = m.half + 2 * (m.step s).push := by
  rw [half, step_velocity]
  omega

def still (offset : Int) : Motion := ⟨offset, 0, 0⟩

@[simp] theorem still_offset (offset : Int) : (still offset).offset = offset := rfl
@[simp] theorem still_push (offset : Int) : (still offset).push = 0 := rfl
@[simp] theorem still_half (offset : Int) : (still offset).half = 0 := rfl

end Motion

/-! One operation that loses nothing but the fraction below the last place. -/

def AddsExactly (a b : Fixed) : Prop := (fixadd a b).intval = a.intval + b.intval

def SubsExactly (a b : Fixed) : Prop := (fixsub a b).intval = a.intval - b.intval

def MulsExactly (a b : Fixed) : Prop := (fixmul a b).intval = a.intval * b.intval / 4096

theorem mulsExactly_dt {a : Fixed} {x : Int} (h : a.intval = x) :
    MulsExactly a dt ∧ (fixmul a dt).intval = x * 81 / 4096 := by
  have hrange := a.inRange
  rw [h] at hrange
  have hexact : (fixmul a dt).intval = a.intval * dt.intval / 4096 := by
    apply fixmul_exact
    rw [h, dt_intval]
    unfold InRange at hrange ⊢
    omega
  refine ⟨hexact, ?_⟩
  rw [hexact, h, dt_intval]

namespace SmoothData

/-- Every operation of the integration is exact, and the value fits the clamp. -/
structure Exact (d : SmoothData) : Prop where
  square : MulsExactly d.c d.c
  offset : SubsExactly d.target d.value
  spring : MulsExactly d.offset d.k
  damping : MulsExactly d.c d.velocity
  accel : SubsExactly d.fspring d.fdampingNeg
  push : MulsExactly (fixdiv2 d.accel) dt
  half : AddsExactly d.velocity (fixmul (fixdiv2 d.accel) dt)
  travel : MulsExactly d.halfV dt
  value : AddsExactly d.value (fixmul d.halfV dt)
  newPush : MulsExactly (fixdiv2 d.newAccel) dt
  velocity : AddsExactly d.halfV (fixmul (fixdiv2 d.newAccel) dt)
  clamp : s16 d.newValue.ipart = d.newValue.ipart

def motion (d : SmoothData) : Motion :=
  ⟨d.target.intval - d.value.intval, d.velocity.intval, d.accel.intval⟩

structure Within (s : Int) (d : SmoothData) : Prop where
  offset : InRange d.motion.offset
  spring : InRange (d.motion.spring s)
  damping : InRange (d.motion.damping s)
  accel : InRange (d.motion.spring s - d.motion.damping s)
  half : InRange d.motion.half
  value : -2 ^ 27 ≤ d.value.intval + d.motion.travel ∧ d.value.intval + d.motion.travel < 2 ^ 27
  velocity : InRange (d.motion.step s).velocity

theorem speedC_exact {n : Nat} (hn : n ≤ speedMax) : (speedC n).intval = n * 1024 := by
  have hshift : (n : Int) <<< (fracBits - speedCShift) = n * 1024 := Int.shiftLeft_eq _ _
  unfold speedC
  rw [hshift]
  apply toFixed_exact
  unfold speedMax at hn
  unfold InRange
  omega

variable {d : SmoothData} {n : Nat}

theorem k_intval (hc : d.c = speedC n) (hn : n ≤ speedMax) :
    MulsExactly d.c d.c ∧ d.k.intval = 64 * n ^ 2 := by
  have hnmax : n ≤ 160 := hn
  have hsquare : n ^ 2 ≤ 160 ^ 2 := Nat.pow_le_pow_left hnmax 2
  have hcint : d.c.intval = n * 1024 := by rw [hc, speedC_exact hn]
  have hprod : d.c.intval * d.c.intval / 4096 = 256 * (n ^ 2 : Nat) := by
    rw [hcint, show (n * 1024 : Int) * (n * 1024) = 256 * (n ^ 2 : Nat) * 4096 by push_cast; ring]
    exact Int.mul_ediv_cancel _ (by decide)
  have hexact : (fixmul d.c d.c).intval = d.c.intval * d.c.intval / 4096 := by
    apply fixmul_exact
    rw [hprod]
    unfold InRange
    omega
  refine ⟨hexact, ?_⟩
  rw [k, fixdiv4_intval, hexact, hprod]
  push_cast
  omega

theorem spring_eq (x s : Int) : x * (64 * s ^ 2) / 4096 = s ^ 2 * x / 64 := by
  rw [show x * (64 * s ^ 2) = 64 * (s ^ 2 * x) by ring, show (4096 : Int) = 64 * 64 by rfl]
  exact Int.mul_ediv_mul_of_pos _ _ (by decide)

theorem damping_eq (x s : Int) : s * 1024 * x / 4096 = s * x / 4 := by
  rw [show s * 1024 * x = 1024 * (s * x) by ring, show (4096 : Int) = 1024 * 4 by rfl]
  exact Int.mul_ediv_mul_of_pos _ _ (by decide)

theorem Within.exact (h : d.Within n) (hc : d.c = speedC n) (hn : n ≤ speedMax) :
    d.Exact ∧ d.integrate.motion = d.motion.step n ∧
      d.newValue.intval = d.value.intval + d.motion.travel := by
  obtain ⟨hsquare, hk⟩ := k_intval hc hn
  have hcint : d.c.intval = n * 1024 := by rw [hc, speedC_exact hn]
  have hoffset : d.offset.intval = d.motion.offset := fixsub_exact h.offset
  have hspring : d.offset.intval * d.k.intval / 4096 = d.motion.spring n := by
    rw [hoffset, hk]
    exact spring_eq _ _
  have hdamping : d.c.intval * d.velocity.intval / 4096 = d.motion.damping n := by
    rw [hcint]
    exact damping_eq _ _
  have hspringExact : MulsExactly d.offset d.k := fixmul_exact (hspring.symm ▸ h.spring)
  have hdampingExact : MulsExactly d.c d.velocity := fixmul_exact (hdamping.symm ▸ h.damping)
  have hfspring : d.fspring.intval = d.motion.spring n := hspringExact.trans hspring
  have hfdamping : d.fdampingNeg.intval = d.motion.damping n := hdampingExact.trans hdamping
  have haccelExact : SubsExactly d.fspring d.fdampingNeg := by
    apply fixsub_exact
    rw [hfspring, hfdamping]
    exact h.accel
  have haccel : d.newAccel.intval = d.motion.spring n - d.motion.damping n := by
    rw [← hfspring, ← hfdamping]
    exact haccelExact
  obtain ⟨hpushExact, hpush⟩ := mulsExactly_dt (fixdiv2_intval d.accel)
  have hhalfExact : AddsExactly d.velocity (fixmul (fixdiv2 d.accel) dt) := by
    apply fixadd_exact
    rw [hpush]
    exact h.half
  have hhalf : d.halfV.intval = d.motion.half := by
    have heq : d.halfV.intval = d.velocity.intval + (fixmul (fixdiv2 d.accel) dt).intval := hhalfExact
    rw [heq, hpush]
    rfl
  obtain ⟨htravelExact, htravel⟩ := mulsExactly_dt hhalf
  have hvalueExact : AddsExactly d.value (fixmul d.halfV dt) := by
    apply fixadd_exact
    rw [htravel]
    have hvalue := h.value
    unfold Motion.travel at hvalue
    unfold InRange
    omega
  have hvalue : d.newValue.intval = d.value.intval + d.motion.travel := by
    have heq : d.newValue.intval = d.value.intval + (fixmul d.halfV dt).intval := hvalueExact
    rw [heq, htravel]
    rfl
  obtain ⟨hnewPushExact, hnewPush⟩ :=
    mulsExactly_dt ((fixdiv2_intval d.newAccel).trans (by rw [haccel]))
  have hnewVelocity : d.halfV.intval + (fixmul (fixdiv2 d.newAccel) dt).intval =
      (d.motion.step n).velocity := by
    rw [hhalf, hnewPush]
    rfl
  have hvelocityExact : AddsExactly d.halfV (fixmul (fixdiv2 d.newAccel) dt) := by
    apply fixadd_exact
    rw [hnewVelocity]
    exact h.velocity
  have hclamp : s16 d.newValue.ipart = d.newValue.ipart := by
    have hbounds := h.value
    rw [Fixed.ipart_eq, hvalue]
    apply s16_of_bounds <;> omega
  refine ⟨⟨hsquare, fixsub_exact h.offset, hspringExact, hdampingExact, haccelExact, hpushExact,
    hhalfExact, htravelExact, hvalueExact, hnewPushExact, hvelocityExact, hclamp⟩, ?_, hvalue⟩
  have hmoved : d.integrate.motion = ⟨d.target.intval - d.newValue.intval,
      d.newVelocity.intval, d.newAccel.intval⟩ := rfl
  have hvelocity : d.newVelocity.intval = (d.motion.step n).velocity :=
    Eq.trans hvelocityExact hnewVelocity
  rw [hmoved, hvalue, hvelocity, haccel]
  simp only [Motion.step, motion, Motion.mk.injEq, and_true]
  omega

end SmoothData

end Glowforge.Led
