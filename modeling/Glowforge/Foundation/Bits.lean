import Mathlib.Data.BitVec

/-! Single-bit access to machine words. The three operations are kept opaque to
simp, so that goals about words stay phrased as questions about bits. -/
namespace Glowforge.Foundation

variable {w : Nat}

def bit (v : BitVec w) (n : Nat) : Bool := v.getLsbD n

def raise (v : BitVec w) (n : Nat) : BitVec w := v ||| 1#w <<< n

def lower (v : BitVec w) (n : Nat) : BitVec w := v &&& ~~~(1#w <<< n)

private theorem getLsbD_one_shiftLeft (n i : Nat) (hn : n < w) :
    (1#w <<< n).getLsbD i = decide (i = n) := by
  rw [BitVec.getLsbD_shiftLeft, BitVec.getLsbD_one]
  by_cases h : i = n
  · subst h
    simp [hn]
    omega
  · have hne : ¬(¬i < n ∧ i - n = 0) := by omega
    simp only [h, decide_false]
    by_cases hlt : i < n
    · simp [hlt]
    · have hsub : i - n ≠ 0 := by omega
      simp [hsub]

@[simp] theorem bit_raise (v : BitVec w) (n i : Nat) (hn : n < w) :
    bit (raise v n) i = (bit v i || decide (i = n)) := by
  unfold bit raise
  rw [BitVec.getLsbD_or, getLsbD_one_shiftLeft n i hn]

@[simp] theorem bit_lower (v : BitVec w) (n i : Nat) (hn : n < w) :
    bit (lower v n) i = (bit v i && !decide (i = n)) := by
  unfold bit lower
  rw [BitVec.getLsbD_and, BitVec.getLsbD_not, getLsbD_one_shiftLeft n i hn]
  by_cases hi : i < w
  · simp [hi]
  · simp [BitVec.getLsbD_of_ge v i (Nat.le_of_not_lt hi)]

@[simp] theorem bit_and (u v : BitVec w) (i : Nat) : bit (u &&& v) i = (bit u i && bit v i) :=
  BitVec.getLsbD_and

@[simp] theorem bit_xor (u v : BitVec w) (i : Nat) : bit (u ^^^ v) i = (bit u i ^^ bit v i) :=
  BitVec.getLsbD_xor

@[simp] theorem bit_not (v : BitVec w) (i : Nat) (hi : i < w) : bit (~~~v) i = !bit v i := by
  unfold bit
  simp [hi]

@[simp] theorem bit_zero (i : Nat) : bit (0#w) i = false :=
  BitVec.getLsbD_zero

@[simp] theorem bit_setWidth {k : Nat} (v : BitVec w) (i : Nat) (hi : i < k) :
    bit (v.setWidth k) i = bit v i := by
  unfold bit
  simp [hi]

end Glowforge.Foundation
