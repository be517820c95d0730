import Mathlib.Algebra.BigOperators.Group.Finset.Basic
import Mathlib.Algebra.BigOperators.Intervals
import Mathlib.Data.BitVec
import Mathlib.Data.List.GetD
import Mathlib.Data.Nat.ModEq
import Mathlib.Tactic.Abel

/-! Ring indices: free-running machine words whose low bits select a cell. Two
indices meet under the mask when their difference is a multiple of the ring size. -/
namespace Glowforge.Foundation

variable {w k : Nat}

theorem natCast_toNat (x : BitVec w) : ((x.toNat : Nat) : BitVec w) = x := by
  rw [BitVec.natCast_eq_ofNat, BitVec.ofNat_toNat, BitVec.setWidth_eq]

/-- The mask of a ring of `2 ^ k` cells, small enough for the index to tell a full
ring from an empty one. -/
def IsMask (k : Nat) (mask : BitVec w) : Prop := k < w ∧ mask.toNat = 2 ^ k - 1

namespace IsMask

variable {mask : BitVec w}

theorem toNat_and (h : IsMask k mask) (i : BitVec w) : (i &&& mask).toNat = i.toNat % 2 ^ k := by
  rw [BitVec.toNat_and, h.2, Nat.and_two_pow_sub_one_eq_mod]

theorem size_dvd (h : IsMask k mask) : 2 ^ k ∣ 2 ^ w := Nat.pow_dvd_pow 2 (Nat.le_of_lt h.1)

theorem size_lt (h : IsMask k mask) : 2 ^ k < 2 ^ w := Nat.pow_lt_pow_right (by decide) h.1

theorem and_eq_iff (h : IsMask k mask) (i j : BitVec w) :
    i &&& mask = j &&& mask ↔ 2 ^ k ∣ (i - j).toNat := by
  have hsum : i.toNat = ((i - j).toNat + j.toNat) % 2 ^ w := by
    rw [← BitVec.toNat_add, BitVec.sub_add_cancel]
  have hmod : i.toNat % 2 ^ k = ((i - j).toNat + j.toNat) % 2 ^ k := by
    rw [hsum, Nat.mod_mod_of_dvd _ h.size_dvd]
  rw [← BitVec.toNat_inj, h.toNat_and, h.toNat_and, hmod]
  constructor
  · intro heq
    have hz : (i - j).toNat + j.toNat ≡ 0 + j.toNat [MOD 2 ^ k] := by
      unfold Nat.ModEq
      rw [heq, Nat.zero_add]
    exact (Nat.modEq_zero_iff_dvd).mp (Nat.ModEq.add_right_cancel' _ hz)
  · intro hdvd
    obtain ⟨q, hq⟩ := hdvd
    rw [hq, Nat.mul_add_mod]

theorem and_eq_iff_of_lt (h : IsMask k mask) {i j : BitVec w} (hlt : (i - j).toNat < 2 ^ k) :
    i &&& mask = j &&& mask ↔ i = j := by
  rw [h.and_eq_iff]
  constructor
  · intro hdvd
    have hzero : (i - j).toNat = 0 := Nat.eq_zero_of_dvd_of_lt hdvd hlt
    have hsub : i - j = 0 := BitVec.eq_of_toNat_eq hzero
    exact sub_eq_zero.mp hsub
  · intro heq
    rw [heq, BitVec.sub_self]
    exact Nat.dvd_zero _

end IsMask

theorem IsMask.toNat_pred_and {mask : BitVec w} (h : IsMask k mask) {x : BitVec w}
    (hx : x &&& mask ≠ 0) : ((x - 1) &&& mask).toNat + 1 = (x &&& mask).toNat := by
  have hmod : x.toNat % 2 ^ k ≠ 0 := by
    intro hzero
    apply hx
    apply BitVec.eq_of_toNat_eq
    rw [h.toNat_and, hzero]
    rfl
  have hpos : 0 < x.toNat := by
    apply Nat.pos_of_ne_zero
    intro hzero
    rw [hzero, Nat.zero_mod] at hmod
    exact hmod rfl
  have hpred : (x - 1).toNat = x.toNat - 1 := by
    have hw : 1 < 2 ^ w := Nat.one_lt_two_pow (by have := h.1; omega)
    have hone : (1 : BitVec w).toNat = 1 := by
      rw [show (1 : BitVec w) = BitVec.ofNat w 1 from rfl, BitVec.toNat_ofNat, Nat.mod_eq_of_lt hw]
    rw [BitVec.toNat_sub_of_le (by rw [BitVec.le_def, hone]; exact hpos), hone]
  rw [h.toNat_and, h.toNat_and, hpred]
  have hsplit := Nat.div_add_mod x.toNat (2 ^ k)
  have hsmall : x.toNat % 2 ^ k - 1 < 2 ^ k := by
    have := Nat.mod_lt x.toNat (Nat.two_pow_pos k)
    omega
  have hrest : x.toNat - 1 = 2 ^ k * (x.toNat / 2 ^ k) + (x.toNat % 2 ^ k - 1) := by omega
  rw [hrest, Nat.mul_add_mod, Nat.mod_eq_of_lt hsmall]
  omega

theorem IsMask.and_add_size {mask : BitVec w} (h : IsMask k mask) (i : BitVec w) :
    (i + (2 ^ k : Nat)) &&& mask = i &&& mask := by
  rw [h.and_eq_iff, add_sub_cancel_left, BitVec.natCast_eq_ofNat, BitVec.toNat_ofNat,
    Nat.mod_eq_of_lt h.size_lt]

theorem IsMask.and_add_ne {mask : BitVec w} (h : IsMask k mask) (i : BitVec w) {n : Nat}
    (hpos : 0 < n) (hlt : n < 2 ^ k) : (i + (n : BitVec w)) &&& mask ≠ i &&& mask := by
  rw [Ne, h.and_eq_iff, add_sub_cancel_left, BitVec.natCast_eq_ofNat, BitVec.toNat_ofNat,
    Nat.mod_eq_of_lt (hlt.trans h.size_lt)]
  intro hdvd
  exact absurd (Nat.le_of_dvd hpos hdvd) (Nat.not_le_of_lt hlt)

def storeRing {α : Type*} (base mask : BitVec w) :
    BitVec w → List α → (BitVec w → α) → BitVec w → α
  | _, [], mem => mem
  | i, b :: bs, mem => storeRing base mask (i + 1) bs (Function.update mem ((i &&& mask) + base) b)

theorem storeRing_apply {α : Type*} (base : BitVec w) {mask : BitVec w} (h : IsMask k mask)
    (bs : List α) (hfit : bs.length ≤ 2 ^ k) (i : BitVec w) (mem : BitVec w → α) {j : Nat} (hj : j < 2 ^ k) :
    storeRing base mask i bs mem (((i + (j : BitVec w)) &&& mask) + base) =
      bs.getD j (mem (((i + (j : BitVec w)) &&& mask) + base)) := by
  induction bs generalizing i mem j with
  | nil => rfl
  | cons b bs ih =>
      have hlen : bs.length + 1 ≤ 2 ^ k := hfit
      unfold storeRing
      cases j with
      | zero =>
          -- the first cell is the last one of the ring seen from the second
          have hwrap : (i + 1 + ((2 ^ k - 1 : Nat) : BitVec w)) &&& mask = i &&& mask := by
            have hsum : i + 1 + ((2 ^ k - 1 : Nat) : BitVec w) = i + (2 ^ k : Nat) := by
              rw [Nat.cast_sub (Nat.one_le_two_pow)]
              push_cast
              abel
            rw [hsum, h.and_add_size]
          have hrest := ih (by omega) (i + 1) (Function.update mem ((i &&& mask) + base) b)
            (j := 2 ^ k - 1) (by omega)
          rw [hwrap] at hrest
          rw [Nat.cast_zero, add_zero, hrest, Function.update_self, List.getD_eq_default _ _ (by omega)]
          rfl
      | succ j =>
          have hstep : i + ((j + 1 : Nat) : BitVec w) = i + 1 + (j : BitVec w) := by
            push_cast
            abel
          have hne : ((i + ((j + 1 : Nat) : BitVec w)) &&& mask) + base ≠ (i &&& mask) + base := by
            intro heq
            exact h.and_add_ne i (Nat.succ_pos j) hj (add_right_cancel heq)
          have hrest := ih (by omega) (i + 1) (Function.update mem ((i &&& mask) + base) b)
            (j := j) (by omega)
          rw [← hstep] at hrest
          rw [hrest, Function.update_of_ne hne]
          rfl

/-- The items in `n` cells of a ring in memory, from index `p` on. -/
def ringWindow {α : Type*} (base mask : BitVec w) (mem : BitVec w → α) (p n : Nat) : List α :=
  (List.range n).map fun j : Nat => mem ((((p + j : Nat) : BitVec w) &&& mask) + base)

theorem ringWindow_add {α : Type*} (base mask : BitVec w) (mem : BitVec w → α) (p m n : Nat) :
    ringWindow base mask mem p (m + n) =
      ringWindow base mask mem p m ++ ringWindow base mask mem (p + m) n := by
  unfold ringWindow
  rw [List.range_add, List.map_append, List.map_map]
  congr 1
  apply List.map_congr_left
  intro j _
  rw [Function.comp_apply, Nat.add_assoc]

theorem ringWindow_storeRing {α : Type*} (base : BitVec w) {mask : BitVec w} (h : IsMask k mask)
    (bs : List α) (mem : BitVec w → α) {p n : Nat} (hfit : n + bs.length ≤ 2 ^ k) :
    ringWindow base mask (storeRing base mask ((p + n : Nat) : BitVec w) bs mem) p n =
      ringWindow base mask mem p n := by
  apply List.map_congr_left
  intro j hj
  have hlt := List.mem_range.mp hj
  -- seen from the first cell stored, the window is at the far end of the ring
  have hwrap : (((p + n : Nat) : BitVec w) + ((2 ^ k - n + j : Nat) : BitVec w)) &&& mask =
      ((p + j : Nat) : BitVec w) &&& mask := by
    have hsum : ((p + n : Nat) : BitVec w) + ((2 ^ k - n + j : Nat) : BitVec w) =
        ((p + j : Nat) : BitVec w) + (2 ^ k : Nat) := by
      rw [← Nat.cast_add, ← Nat.cast_add]
      congr 1
      omega
    rw [hsum, h.and_add_size]
  have hcell := storeRing_apply base h bs (by omega) ((p + n : Nat) : BitVec w) mem
    (j := 2 ^ k - n + j) (by omega)
  rw [hwrap, List.getD_eq_default _ _ (by omega)] at hcell
  exact hcell

theorem ringWindow_stored {α : Type*} (base : BitVec w) {mask : BitVec w} (h : IsMask k mask)
    (bs : List α) (mem : BitVec w → α) {p : Nat} (hfit : bs.length ≤ 2 ^ k) :
    ringWindow base mask (storeRing base mask (p : BitVec w) bs mem) p bs.length = bs := by
  apply List.ext_getElem
  · rw [ringWindow, List.length_map, List.length_range]
  · intro j _ hj
    have hcell := storeRing_apply base h bs hfit (p : BitVec w) mem (j := j) (by omega)
    rw [List.getD_eq_getElem _ _ hj] at hcell
    simp only [ringWindow, List.getElem_map, List.getElem_range]
    rw [Nat.cast_add, hcell]

theorem toNat_sub_back {i j : BitVec w} {n m : Nat} (hle : m ≤ n)
    (hlt : (i - j).toNat + n < 2 ^ w) :
    (i - (j - (n : BitVec w) + (m : BitVec w))).toNat = (i - j).toNat + (n - m) := by
  have hsplit : i - (j - (n : BitVec w) + (m : BitVec w)) = (i - j) + ((n - m : Nat) : BitVec w) := by
    rw [Nat.cast_sub hle]
    abel
  have hsmall : n - m < 2 ^ w := by omega
  rw [hsplit, BitVec.toNat_add, BitVec.natCast_eq_ofNat, BitVec.toNat_ofNat, Nat.mod_eq_of_lt hsmall,
    Nat.mod_eq_of_lt (by omega)]

/-- Going back over `n` cells and forward again over the cells below them: all but
the outermost two cancel. -/
theorem sum_retrace {A G : Type*} [AddCommGroupWithOne A] [AddCommGroup G] (f : A → G) (h : A)
    (n : Nat) :
    ∑ j ∈ Finset.range n, f (h - n + j) - ∑ j ∈ Finset.range n, f (h - j) = f (h - n) - f h := by
  induction n with
  | zero => simp
  | succ n ih =>
      have hshift (j : Nat) : h - (n + 1 : Nat) + (j + 1 : Nat) = h - n + j := by
        push_cast
        abel
      have hforth : ∑ j ∈ Finset.range (n + 1), f (h - (n + 1 : Nat) + j) =
          ∑ j ∈ Finset.range n, f (h - n + j) + f (h - (n + 1 : Nat)) := by
        rw [Finset.sum_range_succ']
        simp only [hshift, Nat.cast_zero, add_zero]
      rw [hforth, Finset.sum_range_succ, sub_eq_iff_eq_add.mp ih]
      abel

end Glowforge.Foundation
