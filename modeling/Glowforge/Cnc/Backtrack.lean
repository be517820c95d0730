import Glowforge.Sdma.Isa

/-! Bounds of a backward run over the pulse ring (`cnc_backtrack.h`). With an unplayed
span of `u` bytes, `total - u` bytes were played and `size - u` are still resident;
a backward run is legal over the lesser of the two. -/
namespace Glowforge.Cnc
open Sdma

/-- Steps consumed by a controlled deceleration, scaled through kHz. -/
def cncBacktrackDecelSteps (stepFreq rampRate : Word) : Word :=
  let fKhz := (stepFreq + 999) / 1000
  let rKhz := if rampRate / 1000 = 0 then 1 else rampRate / 1000
  (stepFreq * fKhz) / (2 * rKhz)

def cncBacktrackMaxSteps (ringSize unplayed : Word) (totalBytes : BitVec 64)
    (decelSteps : Word) : Word :=
  let played := if totalBytes > unplayed.zeroExtend 64 then totalBytes - unplayed.zeroExtend 64 else 0
  let resident := ringSize - unplayed
  let genuine := if played < resident.zeroExtend 64 then played.truncate 32 else resident
  if genuine > decelSteps then genuine - decelSteps else 0

/-- How far behind the write index the bytes are genuine job data. -/
def cncBacktrackSpan (ringSize : Word) (totalBytes : BitVec 64) : Word :=
  if totalBytes < ringSize.zeroExtend 64 then totalBytes.truncate 32 else ringSize

private theorem toNat_zeroExtend (x : Word) : (x.zeroExtend 64).toNat = x.toNat := by
  have hx := x.isLt
  rw [BitVec.toNat_setWidth, Nat.mod_eq_of_lt (by omega)]

private theorem toNat_truncate {x : BitVec 64} {y : Word} (h : x < y.zeroExtend 64) :
    (x.truncate 32).toNat = x.toNat := by
  have hy := y.isLt
  have hlt : x.toNat < (y.zeroExtend 64).toNat := h
  rw [toNat_zeroExtend] at hlt
  rw [BitVec.truncate, BitVec.toNat_setWidth, Nat.mod_eq_of_lt (by omega)]

theorem cncBacktrackSpan_toNat (ringSize : Word) (totalBytes : BitVec 64) :
    (cncBacktrackSpan ringSize totalBytes).toNat = min totalBytes.toNat ringSize.toNat := by
  unfold cncBacktrackSpan
  by_cases h : totalBytes < ringSize.zeroExtend 64
  · have hlt : totalBytes.toNat < (ringSize.zeroExtend 64).toNat := h
    rw [toNat_zeroExtend] at hlt
    rw [if_pos h, toNat_truncate h]
    omega
  · have hle : ¬totalBytes.toNat < (ringSize.zeroExtend 64).toNat := h
    rw [toNat_zeroExtend] at hle
    rw [if_neg h]
    omega

theorem cncBacktrackMaxSteps_toNat (ringSize unplayed : Word) (totalBytes : BitVec 64)
    (decelSteps : Word) :
    (cncBacktrackMaxSteps ringSize unplayed totalBytes decelSteps).toNat =
      min (totalBytes.toNat - unplayed.toNat) (ringSize - unplayed).toNat - decelSteps.toNat := by
  have hplayed : (if totalBytes > unplayed.zeroExtend 64 then
      totalBytes - unplayed.zeroExtend 64 else 0).toNat = totalBytes.toNat - unplayed.toNat := by
    by_cases h : totalBytes > unplayed.zeroExtend 64
    · rw [if_pos h, BitVec.toNat_sub_of_le (BitVec.le_of_lt h), toNat_zeroExtend]
    · have hle : ¬(unplayed.zeroExtend 64).toNat < totalBytes.toNat := h
      rw [toNat_zeroExtend] at hle
      rw [if_neg h]
      change 0 = _
      omega
  unfold cncBacktrackMaxSteps
  generalize (if totalBytes > unplayed.zeroExtend 64 then
    totalBytes - unplayed.zeroExtend 64 else 0) = played at hplayed ⊢
  have hgenuine : (if played < (ringSize - unplayed).zeroExtend 64 then played.truncate 32
      else ringSize - unplayed).toNat = min played.toNat (ringSize - unplayed).toNat := by
    by_cases h : played < (ringSize - unplayed).zeroExtend 64
    · have hlt : played.toNat < ((ringSize - unplayed).zeroExtend 64).toNat := h
      rw [toNat_zeroExtend] at hlt
      rw [if_pos h, toNat_truncate h]
      omega
    · have hle : ¬played.toNat < ((ringSize - unplayed).zeroExtend 64).toNat := h
      rw [toNat_zeroExtend] at hle
      rw [if_neg h]
      omega
  simp only
  generalize (if played < (ringSize - unplayed).zeroExtend 64 then played.truncate 32
    else ringSize - unplayed) = genuine at hgenuine ⊢
  rw [← hplayed, ← hgenuine]
  by_cases h : genuine > decelSteps
  · rw [if_pos h, BitVec.toNat_sub_of_le (BitVec.le_of_lt h)]
  · have hle : ¬decelSteps.toNat < genuine.toNat := h
    rw [if_neg h]
    change 0 = _
    omega

theorem unplayed_lt_total {ringSize unplayed decelSteps : Word} {totalBytes : BitVec 64}
    (h : 0 < cncBacktrackMaxSteps ringSize unplayed totalBytes decelSteps) :
    unplayed.toNat < totalBytes.toNat := by
  have hpos : 0 < (cncBacktrackMaxSteps ringSize unplayed totalBytes decelSteps).toNat := h
  rw [cncBacktrackMaxSteps_toNat] at hpos
  omega

/-- Its dead stop is then behind the play position, unless the ring is overrun. -/
theorem unplayed_lt_span {ringSize unplayed decelSteps : Word} {totalBytes : BitVec 64}
    (h : 0 < cncBacktrackMaxSteps ringSize unplayed totalBytes decelSteps)
    (hring : unplayed ≤ ringSize) :
    unplayed.toNat < (cncBacktrackSpan ringSize totalBytes).toNat := by
  have hpos : 0 < (cncBacktrackMaxSteps ringSize unplayed totalBytes decelSteps).toNat := h
  rw [cncBacktrackMaxSteps_toNat, BitVec.toNat_sub_of_le hring] at hpos
  rw [cncBacktrackSpan_toNat]
  omega

end Glowforge.Cnc
