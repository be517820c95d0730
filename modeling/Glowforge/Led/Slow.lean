import Glowforge.Led.Motion
import Mathlib.Tactic.IntervalCases
import Mathlib.Tactic.Linarith

/-! The motion at the lowest speeds, where what the operations round off can outweigh what
a timestep gains. It keeps to a cone about the line of the critically damped motion, on the
way up and on the way down, and the cone leads to the target. Pushes are rounded down:
a fall always gets one, a rise from rest only if the spring is strong enough. -/
namespace Glowforge.Led.Motion

variable {s : Int} {m : Motion}

theorem step_position (s : Int) (m : Motion) :
    (m.step s).offset = m.offset - m.half * 81 / 4096 := rfl

theorem step_push (s : Int) (m : Motion) :
    (m.step s).push = (s ^ 2 * m.offset / 64 - s * (m.half - m.push) / 4) / 2 * 81 / 4096 := by
  rw [← velocity_eq]
  rfl

theorem push_bounds (s : Int) (m : Motion) :
    81 * (s ^ 2 * m.offset - 16 * (s * (m.half - m.push))) - 534447 ≤ 524288 * (m.step s).push ∧
      524288 * (m.step s).push ≤
        81 * (s ^ 2 * m.offset - 16 * (s * (m.half - m.push))) + 3888 := by
  have hpush := m.step_push s
  constructor <;> omega

structure Rising (s : Int) (m : Motion) : Prop where
  low : 257 ≤ m.offset
  high : m.offset ≤ 1044736
  forward : 0 ≤ m.half
  braking : -(32 * m.push) ≤ m.half + 64
  slope : 8 * m.half ≤ s * m.offset + 50
  pull : 16 * m.push ≤ s * m.offset - 8 * m.half + 50
  driven : m.push ≤ m.half

theorem Rising.forward_step (hs : 1 ≤ s) (hs' : s ≤ 15) (h : m.Rising s) :
    0 ≤ (m.step s).half ∧ -(32 * (m.step s).push) ≤ (m.step s).half + 64 := by
  obtain ⟨hlow, -, hforward, hbraking, hslope, -, hdriven⟩ := h
  obtain ⟨hleast, -⟩ := m.push_bounds s
  have hhalf := m.step_half s
  interval_cases s <;> omega

theorem Rising.slope_step (hs : 1 ≤ s) (hs' : s ≤ 15) (h : m.Rising s) :
    8 * (m.step s).half ≤ s * (m.step s).offset + 50 ∧
      16 * (m.step s).push ≤ s * (m.step s).offset - 8 * (m.step s).half + 50 := by
  obtain ⟨-, -, hforward, -, hslope, hpull, hdriven⟩ := h
  obtain ⟨-, hmost⟩ := m.push_bounds s
  have hhalf := m.step_half s
  have hoffset := m.step_position s
  interval_cases s <;> omega

theorem Rising.no_overshoot (hs : 1 ≤ s) (hs' : s ≤ 15) (h : m.Rising s) :
    -256 ≤ (m.step s).offset := by
  have hlow := h.low
  have hslope := h.slope
  have hoffset := m.step_position s
  interval_cases s <;> omega

theorem Rising.step (hs : 1 ≤ s) (hs' : s ≤ 15) (h : m.Rising s)
    (hfar : 256 < |(m.step s).offset|) : (m.step s).Rising s := by
  have hnonneg := h.forward
  obtain ⟨hforward, hbraking⟩ := h.forward_step hs hs'
  obtain ⟨hslope, hpull⟩ := h.slope_step hs hs'
  have hhalf := m.step_half s
  have hlow : 257 ≤ (m.step s).offset := by
    have hshort := h.no_overshoot hs hs'
    rw [lt_abs] at hfar
    omega
  have hhigh : (m.step s).offset ≤ 1044736 := by
    have hbefore := h.high
    rw [step_position]
    omega
  exact ⟨hlow, hhigh, hforward, hbraking, hslope, hpull, by omega⟩

theorem Rising.half_step (hs : 4 ≤ s) (hs' : s ≤ 15) (h : m.Rising s) (hfast : 51 ≤ m.half) :
    51 ≤ (m.step s).half := by
  obtain ⟨hlow, -, -, hbraking, hslope, -, -⟩ := h
  have hhalf := m.step_half s
  have hpush := m.step_push s
  by_cases hslow : m.half ≤ 60
  · have hforward : 0 ≤ (m.step s).push := by
      interval_cases s <;> omega
    omega
  · interval_cases s <;> omega

/-- The spring outweighs the damping of the fastest motion that does not move, and still
gives the least acceleration that is not rounded off. -/
def Enough (s offset : Int) : Prop := 102 + 49 * s / 4 ≤ s ^ 2 * offset / 64

theorem Enough.mono {x y : Int} (h : Enough s x) (hxy : x ≤ y) : Enough s y := by
  have hspring : s ^ 2 * x ≤ s ^ 2 * y := Int.mul_le_mul_of_nonneg_left hxy (sq_nonneg s)
  unfold Enough at *
  omega

theorem enough_fast (hs : 7 ≤ s) : Enough s 257 := by
  have hsquare : 7 * s ≤ s ^ 2 := by nlinarith
  unfold Enough
  omega

theorem enough_whole (hs : 4 ≤ s) : Enough s 4096 := by
  have hsquare : 4 * s ≤ s ^ 2 := by nlinarith
  unfold Enough
  omega

/-- A rise that moves, or gains on the damping until it does. -/
structure Gaining (s : Int) (m : Motion) : Prop extends m.Rising s where
  gaining : 51 ≤ m.half ∨ m.half - m.push ≤ 49 ∧ Enough s m.offset

theorem Gaining.push_pos (hs : 0 ≤ s) (hslow : m.half - m.push ≤ 49) (h : Enough s m.offset) :
    1 ≤ (m.step s).push := by
  have hdamping : s * (m.half - m.push) / 4 ≤ 49 * s / 4 :=
    Int.ediv_le_ediv (by decide) (by nlinarith)
  have hpush := m.step_push s
  unfold Enough at h
  omega

/-- How far a rise is from the target, and from moving. -/
def riseLeft (m : Motion) : Nat := (64 * m.offset).toNat + (51 - m.half).toNat

theorem Gaining.step (hs : 4 ≤ s) (hs' : s ≤ 15) (h : m.Gaining s)
    (hfar : 256 < |(m.step s).offset|) :
    (m.step s).Gaining s ∧ (m.step s).riseLeft < m.riseLeft := by
  have hrising := h.toRising.step (by omega) hs' hfar
  have hlow := h.low
  have hforward := h.forward
  have hoffset := m.step_position s
  have hhalf := m.step_half s
  by_cases hmoves : 51 ≤ m.half
  · have hmoves' := h.toRising.half_step hs hs' hmoves
    refine ⟨⟨hrising, .inl hmoves'⟩, ?_⟩
    unfold riseLeft
    omega
  · obtain ⟨hslow, henough⟩ := h.gaining.resolve_left hmoves
    have hpush := Gaining.push_pos (by omega) hslow henough
    have hstays : (m.step s).offset = m.offset := by omega
    refine ⟨⟨hrising, ?_⟩, ?_⟩
    · rw [hstays]
      by_cases hmoves' : 51 ≤ (m.step s).half
      · exact .inl hmoves'
      · exact .inr ⟨by omega, henough⟩
    · unfold riseLeft
      omega

theorem rising_still {offset : Int} (hs : 1 ≤ s) (hlow : 257 ≤ offset) (hhigh : offset ≤ 1044736) :
    (still offset).Rising s := by
  have hspring : 0 ≤ s * offset := Int.mul_nonneg (by omega) (by omega)
  constructor <;> simp only [still_offset, still_half, still_push] <;> omega

theorem gaining_still {offset : Int} (hs : 1 ≤ s) (hlow : 257 ≤ offset) (hhigh : offset ≤ 1044736)
    (h : Enough s offset) : (still offset).Gaining s :=
  ⟨rising_still hs hlow hhigh, .inr ⟨by simp, h⟩⟩

structure Falling (s : Int) (m : Motion) : Prop where
  high : m.offset ≤ -257
  low : -1044736 ≤ m.offset
  braking : 32 * m.push ≤ -m.half + 96
  slope : s * m.offset - 8 * m.half ≤ 410 + 6700 / s
  pull : -(16 * m.push) ≤ 8 * m.half - s * m.offset + (410 + 6700 / s)
  moving : m.half ≤ -2 ∨ m.half = 0 ∧ m.push = 0

def fallLeft (m : Motion) : Nat := (-(4 * m.offset)).toNat + (m.half + 2).toNat

theorem Falling.moving_step (hs : 1 ≤ s) (hs' : s ≤ 15) (h : m.Falling s) :
    (m.step s).half ≤ -2 ∧ 32 * (m.step s).push ≤ -(m.step s).half + 96 := by
  obtain ⟨hhigh, -, hbraking, hslope, -, hmoving⟩ := h
  obtain ⟨-, hmost⟩ := m.push_bounds s
  have hhalf := m.step_half s
  interval_cases s <;> omega

theorem Falling.slope_step (hs : 1 ≤ s) (hs' : s ≤ 15) (h : m.Falling s) :
    s * (m.step s).offset - 8 * (m.step s).half ≤ 410 + 6700 / s ∧
      -(16 * (m.step s).push) ≤
        8 * (m.step s).half - s * (m.step s).offset + (410 + 6700 / s) := by
  obtain ⟨-, -, hbraking, hslope, hpull, hmoving⟩ := h
  obtain ⟨hleast, -⟩ := m.push_bounds s
  have hhalf := m.step_half s
  have hoffset := m.step_position s
  interval_cases s <;> omega

theorem Falling.no_overshoot (hs : 1 ≤ s) (hs' : s ≤ 15) (h : m.Falling s) :
    (m.step s).offset ≤ 256 := by
  have hhigh := h.high
  have hslope := h.slope
  have hoffset := m.step_position s
  interval_cases s <;> omega

theorem Falling.step (hs : 1 ≤ s) (hs' : s ≤ 15) (h : m.Falling s)
    (hfar : 256 < |(m.step s).offset|) :
    (m.step s).Falling s ∧ (m.step s).fallLeft < m.fallLeft := by
  obtain ⟨hmoving, hbraking⟩ := h.moving_step hs hs'
  obtain ⟨hslope, hpull⟩ := h.slope_step hs hs'
  have hoffset := m.step_position s
  have hbackward : m.half ≤ 0 := by
    have hnow := h.moving
    omega
  have hhigh : (m.step s).offset ≤ -257 := by
    have hshort := h.no_overshoot hs hs'
    rw [lt_abs] at hfar
    omega
  have hlow : -1044736 ≤ (m.step s).offset := by
    have hbefore := h.low
    omega
  refine ⟨⟨hhigh, hlow, hbraking, hslope, hpull, .inl hmoving⟩, ?_⟩
  have hnow := h.moving
  unfold fallLeft
  omega

theorem falling_still {offset : Int} (hs : 1 ≤ s) (hhigh : offset ≤ -257)
    (hlow : -1044736 ≤ offset) : (still offset).Falling s := by
  have hspare : 0 ≤ 6700 / s := Int.ediv_nonneg (by decide) (by omega)
  have hspring : s * offset ≤ 0 := Int.mul_nonpos_of_nonneg_of_nonpos (by omega) (by omega)
  refine ⟨hhigh, hlow, ?_, ?_, ?_, .inr ⟨rfl, rfl⟩⟩ <;>
    simp only [still_offset, still_half, still_push] <;> omega

/-- A rise that is braked to a halt before it is close to the target. -/
structure Halting (s : Int) (m : Motion) : Prop extends m.Rising s where
  short : m.half ≤ 50 ∨ 3 * m.half + 362 ≤ 2 * m.offset
  braked : m.offset ≤ 640 → m.push ≤ 0

theorem Halting.low_step (hs : 1 ≤ s) (hs' : s ≤ 3) (h : m.Halting s) :
    257 ≤ (m.step s).offset := by
  have hlow := h.low
  have hforward := h.forward
  have hslope := h.slope
  have hshort := h.short
  have hoffset := m.step_position s
  interval_cases s <;> omega

theorem Halting.braked_step (hs : 1 ≤ s) (hs' : s ≤ 3) (h : m.Halting s)
    (hnear : (m.step s).offset ≤ 640) : (m.step s).push ≤ 0 := by
  have hoffset := m.step_position s
  have hnear' : m.offset ≤ 646 := by
    have hslope := h.slope
    interval_cases s <;> omega
  have hdamping : 0 ≤ s * (m.half - m.push) / 4 :=
    Int.ediv_nonneg (Int.mul_nonneg (by omega) (sub_nonneg.mpr h.driven)) (by decide)
  have hspring : s ^ 2 * m.offset / 64 ≤ 101 := by
    interval_cases s <;> omega
  have hpush := m.step_push s
  omega

theorem Halting.step (hs : 1 ≤ s) (hs' : s ≤ 3) (h : m.Halting s) :
    256 < |(m.step s).offset| ∧ (m.step s).Halting s := by
  have hlow := h.low_step hs hs'
  have hfar : 256 < |(m.step s).offset| := lt_abs.mpr (.inl (by omega))
  have hrising := h.toRising.step hs (by omega) hfar
  have hbraked' := h.braked_step hs hs'
  refine ⟨hfar, hrising, ?_, hbraked'⟩
  obtain ⟨⟨hlow₀, -, hforward, -, hslope, -, -⟩, hshort, hbraked⟩ := h
  have hoffset := m.step_position s
  have hhalf := m.step_half s
  by_cases hnear : (m.step s).offset < 440
  · -- No push is left, and a timestep covers 3 at most.
    have hpush₀ : m.push ≤ 0 := hbraked (by interval_cases s <;> omega)
    have hpush₁ : (m.step s).push ≤ 0 := hbraked' (by omega)
    have hpush := m.step_push s
    by_cases hroom : 3 * m.half + 362 ≤ 2 * (m.step s).offset
    · omega
    · have hback : m.half ≤ 50 ∨ (m.step s).push ≤ -1 := by
        interval_cases s <;> omega
      omega
  · -- So far from the target, the cone alone leaves room.
    have hslope' := hrising.slope
    right
    interval_cases s <;> omega

theorem halting_still {offset : Int} (hs : 1 ≤ s) (hlow : 257 ≤ offset)
    (hhigh : offset ≤ 1044736) : (still offset).Halting s :=
  ⟨rising_still hs hlow hhigh, .inl (by simp), by simp⟩

/-- A rise so slow that every timestep covers nothing. -/
structure Stuck (s : Int) (m : Motion) : Prop where
  low : 257 ≤ m.offset
  high : m.offset ≤ 1044736
  weak : ¬Enough s m.offset
  forward : 0 ≤ m.half
  slow : m.half ≤ 50
  even : m.half % 2 = 0
  balanced : s * m.half / 4 ≤ s ^ 2 * m.offset / 64
  push : 0 ≤ m.push ∧ m.push ≤ 1
  driven : m.push ≤ m.half

theorem Stuck.step (hs : 4 ≤ s) (hs' : s ≤ 6) (h : m.Stuck s) :
    256 < |(m.step s).offset| ∧ (m.step s).Stuck s := by
  obtain ⟨hlow, hhigh, hweak, hforward, hslow, heven, hbalanced, hpush₀, hdriven⟩ := h
  have hhalf := m.step_half s
  have hpush := m.step_push s
  have hstays : (m.step s).offset = m.offset := by
    rw [step_position]
    omega
  have hlag : s * (m.half - m.push) / 4 ≤ s * m.half / 4 :=
    Int.ediv_le_ediv (by decide) (by nlinarith)
  have hdamping : 0 ≤ s * (m.half - m.push) / 4 :=
    Int.ediv_nonneg (Int.mul_nonneg (by omega) (by omega)) (by decide)
  have hweak' : s ^ 2 * m.offset / 64 < 102 + 49 * s / 4 := not_le.mp hweak
  have hpush₁ : 0 ≤ (m.step s).push ∧ (m.step s).push ≤ 1 := by
    clear hhalf
    interval_cases s <;> omega
  have hstill : (m.step s).half ≤ 50 ∧ s * (m.step s).half / 4 ≤ s ^ 2 * m.offset / 64 := by
    rcases show (m.step s).push = 0 ∨ (m.step s).push = 1 by omega with hnone | hone
    · rw [hhalf, hnone, mul_zero, add_zero]
      exact ⟨hslow, hbalanced⟩
    · have hroom : 102 ≤ s ^ 2 * m.offset / 64 - s * (m.half - m.push) / 4 := by omega
      interval_cases s <;> omega
  constructor
  · rw [hstays]
    exact lt_abs.mpr (.inl (by omega))
  · refine ⟨?_, ?_, ?_, by omega, hstill.1, by omega, ?_, hpush₁, by omega⟩ <;> rw [hstays]
    · exact hlow
    · exact hhigh
    · exact hweak
    · exact hstill.2

theorem stuck_still {offset : Int} (hlow : 257 ≤ offset) (hhigh : offset ≤ 1044736)
    (h : ¬Enough s offset) : (still offset).Stuck s := by
  refine ⟨hlow, hhigh, h, le_refl 0, by simp, rfl, ?_, by simp, le_refl 0⟩
  have hspring : 0 ≤ s ^ 2 * offset / 64 :=
    Int.ediv_nonneg (Int.mul_nonneg (sq_nonneg s) (by omega)) (by decide)
  simpa using hspring

/-- A motion whose results at a speed of 15 or less fit the words. -/
structure Slight (m : Motion) : Prop where
  offset : |m.offset| ≤ 2 ^ 21
  half : |m.half| ≤ 2 ^ 22
  push : |m.push| ≤ 2 ^ 22

theorem Rising.slight (hs : 1 ≤ s) (hs' : s ≤ 15) (h : m.Rising s) : m.Slight := by
  obtain ⟨hlow, hhigh, hforward, hbraking, hslope, hpull, -⟩ := h
  have hspring : s * m.offset ≤ 15 * 1044736 := by nlinarith
  constructor <;> rw [abs_le] <;> omega

theorem Falling.slight (hs : 1 ≤ s) (hs' : s ≤ 15) (h : m.Falling s) : m.Slight := by
  obtain ⟨hhigh, hlow, hbraking, hslope, hpull, hmoving⟩ := h
  have hspring : -(15 * 1044736) ≤ s * m.offset := by nlinarith
  have hspare : 6700 / s ≤ 6700 := Int.ediv_le_self _ (by decide)
  constructor <;> rw [abs_le] <;> omega

theorem Stuck.slight (h : m.Stuck s) : m.Slight := by
  obtain ⟨hlow, hhigh, -, hforward, hslow, -, -, hpush, -⟩ := h
  constructor <;> rw [abs_le] <;> omega

theorem Slight.within {d : SmoothData} {n : Nat} (hn : n ≤ 15)
    (htarget : |d.target.intval| ≤ 2 ^ 21) (h : d.motion.Slight) : d.Within n := by
  obtain ⟨hoffset, hhalf, hpush⟩ := h
  have hvelocity := d.motion.velocity_eq
  have hposition : d.motion.offset = d.target.intval - d.value.intval := rfl
  rw [abs_le] at hoffset hhalf hpush htarget
  have hn₁ : (0 : Int) ≤ n := by omega
  have hn₂ : (n : Int) ≤ 15 := by omega
  have hspring : |d.motion.spring n| ≤ 2 ^ 23 := by
    have hsquare : (n : Int) ^ 2 ≤ 225 := by nlinarith
    unfold Motion.spring
    rw [abs_le]
    have h₁ : (n : Int) ^ 2 * d.motion.offset ≤ 225 * 2 ^ 21 := by nlinarith
    have h₂ : -(225 * 2 ^ 21) ≤ (n : Int) ^ 2 * d.motion.offset := by nlinarith
    omega
  have hdamping : |d.motion.damping n| ≤ 2 ^ 25 := by
    unfold Motion.damping
    rw [abs_le]
    have h₁ : (n : Int) * d.motion.velocity ≤ 15 * 2 ^ 23 := by nlinarith
    have h₂ : -(15 * 2 ^ 23) ≤ (n : Int) * d.motion.velocity := by nlinarith
    omega
  rw [abs_le] at hspring hdamping
  refine ⟨?_, ?_, ?_, ?_, ?_, ?_, ?_⟩
  · unfold InRange
    omega
  · unfold InRange
    omega
  · unfold InRange
    omega
  · unfold InRange
    omega
  · unfold InRange
    omega
  · unfold travel
    omega
  · rw [step_velocity, Motion.push, step_accel]
    unfold InRange
    omega

end Glowforge.Led.Motion
