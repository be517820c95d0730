import Glowforge.Foundation.Bisection
import Glowforge.Led.Fixed
import Mathlib.Data.Nat.Find
import Mathlib.Order.Bounds.Basic

/-! The reverse lookup in the gamma correction table. It is adapted from `bsearch`, keeps the
last position it looked at, and so returns the next-highest entry, or the one below it. -/
namespace Glowforge.Led
open Foundation.Bisection

/-- A table of brightnesses, which are nonnegative `int`s, in nondecreasing order. -/
structure CorrectionTable where
  entries : Array Nat
  sorted : entries.toList.Pairwise (· ≤ ·)
  fits : ∀ e ∈ entries, e < 2 ^ 31

/-- Gamma 2.2: `correction_table[i] = 1023 * (i/256)^2.2` -/
def correctionTable : CorrectionTable where
  entries := #[
    0, 0, 0, 0, 0, 0, 0, 0, 0, 0, 0, 1, 1, 1, 1, 2, 2, 2, 2, 3, 3, 4, 4, 5, 5, 6, 6, 7, 7, 8, 9,
    9, 10, 11, 12, 12, 13, 14, 15, 16, 17, 18, 19, 20, 21, 22, 23, 24, 25, 27, 28, 29, 30, 32, 33,
    35, 36, 37, 39, 40, 42, 43, 45, 47, 48, 50, 52, 54, 55, 57, 59, 61, 63, 65, 67, 69, 71, 73,
    75, 77, 79, 82, 84, 86, 88, 91, 93, 96, 98, 100, 103, 106, 108, 111, 113, 116, 119, 122, 124,
    127, 130, 133, 136, 139, 142, 145, 148, 151, 154, 157, 160, 164, 167, 170, 174, 177, 180, 184,
    187, 191, 194, 198, 202, 205, 209, 213, 216, 220, 224, 228, 232, 236, 240, 244, 248, 252, 256,
    260, 264, 269, 273, 277, 282, 286, 290, 295, 299, 304, 309, 313, 318, 323, 327, 332, 337, 342,
    347, 351, 356, 361, 366, 371, 377, 382, 387, 392, 397, 403, 408, 413, 419, 424, 430, 435, 441,
    446, 452, 458, 463, 469, 475, 481, 487, 493, 498, 504, 510, 517, 523, 529, 535, 541, 547, 554,
    560, 566, 573, 579, 586, 592, 599, 606, 612, 619, 626, 632, 639, 646, 653, 660, 667, 674, 681,
    688, 695, 702, 710, 717, 724, 731, 739, 746, 754, 761, 769, 776, 784, 792, 799, 807, 815, 823,
    830, 838, 846, 854, 862, 870, 878, 887, 895, 903, 911, 920, 928, 936, 945, 953, 962, 970, 979,
    988, 996, 1005, 1014, 1023]
  sorted := by decide +kernel
  fits := by decide +kernel

namespace CorrectionTable

/-- `raw_brightness - correction_table[mid]`, as an `int` -/
def result (t : CorrectionTable) (raw mid : Nat) : Int := s32 (raw - t.entries.getD mid 0)

def probe (t : CorrectionTable) (raw mid : Nat) : Ordering :=
  if t.result raw mid < 0 then .lt else if t.result raw mid > 0 then .gt else .eq

def search (t : CorrectionTable) (raw : Nat) : Nat :=
  bisect (t.probe raw) 0 t.entries.size 0

def NextHighest (t : CorrectionTable) (raw i : Nat) : Prop :=
  IsLeast {j | ∃ e, t.entries[j]? = some e ∧ raw < e} i

/-- The index of the raw brightness, or the index of the next-highest value. -/
def LowerBound (t : CorrectionTable) (raw i : Nat) : Prop :=
  t.entries[i]? = some raw ∨ raw ∉ t.entries ∧ t.NextHighest raw i

def Covers (t : CorrectionTable) (raw : Nat) : Prop :=
  ∃ e, t.entries.back? = some e ∧ raw ≤ e

variable {t : CorrectionTable} {raw : Nat}

theorem le_of_le {i j a b : Nat} (hi : t.entries[i]? = some a) (hj : t.entries[j]? = some b)
    (hij : i ≤ j) : a ≤ b := by
  rcases Nat.eq_or_lt_of_le hij with rfl | hlt
  · rw [hi] at hj
    exact (Option.some.inj hj).le
  · obtain ⟨hisize, rfl⟩ := Array.getElem?_eq_some_iff.mp hi
    obtain ⟨hjsize, rfl⟩ := Array.getElem?_eq_some_iff.mp hj
    have h := List.pairwise_iff_getElem.mp t.sorted i j hisize hjsize hlt
    simpa using h

theorem Covers.lt (h : t.Covers raw) : raw < 2 ^ 31 := by
  obtain ⟨e, hlast, hle⟩ := h
  exact Nat.lt_of_le_of_lt hle (t.fits e (Array.mem_of_back? hlast))

theorem probe_eq (hraw : raw < 2 ^ 31) {i e : Nat} (hi : t.entries[i]? = some e) :
    t.probe raw i = if raw < e then .lt else if e < raw then .gt else .eq := by
  have hfits := t.fits e (Array.mem_of_getElem? hi)
  have hget : t.entries.getD i 0 = e := by
    rw [Array.getD_eq_getD_getElem?, hi]
    rfl
  have hresult : t.result raw i = raw - e := by
    unfold result
    rw [hget]
    apply s32_of_inRange
    unfold InRange
    omega
  unfold probe
  rw [hresult]
  rcases Nat.lt_trichotomy raw e with hlt | rfl | hgt
  · rw [if_pos (by omega), if_pos hlt]
  · rw [if_neg (by omega), if_neg (by omega), if_neg (by omega), if_neg (by omega)]
  · rw [if_neg (by omega), if_pos (by omega), if_neg (by omega), if_pos hgt]

theorem probe_lt (hraw : raw < 2 ^ 31) {i e : Nat} (hi : t.entries[i]? = some e) :
    t.probe raw i = .lt ↔ raw < e := by
  rw [probe_eq hraw hi]
  grind

theorem probe_gt (hraw : raw < 2 ^ 31) {i e : Nat} (hi : t.entries[i]? = some e) :
    t.probe raw i = .gt ↔ e < raw := by
  rw [probe_eq hraw hi]
  grind

theorem probe_hit (hraw : raw < 2 ^ 31) {i e : Nat} (hi : t.entries[i]? = some e) :
    t.probe raw i = .eq ↔ e = raw := by
  rw [probe_eq hraw hi]
  grind

theorem graded (hraw : raw < 2 ^ 31) : Graded (t.probe raw) t.entries.size := by
  constructor
  · intro i j hij hj hprobe
    have hgeti := Array.getElem?_eq_getElem (Nat.lt_of_le_of_lt hij hj)
    have hgetj := Array.getElem?_eq_getElem hj
    rw [probe_gt hraw hgetj] at hprobe
    rw [probe_gt hraw hgeti]
    exact (le_of_le hgeti hgetj hij).trans_lt hprobe
  · intro i j hij hj hprobe
    have hgeti := Array.getElem?_eq_getElem (Nat.lt_of_le_of_lt hij hj)
    have hgetj := Array.getElem?_eq_getElem hj
    rw [probe_lt hraw hgeti] at hprobe
    rw [probe_lt hraw hgetj]
    exact hprobe.trans_le (le_of_le hgeti hgetj hij)

theorem search_lt (h : 0 < t.entries.size) : t.search raw < t.entries.size :=
  bisect_lt le_rfl h

theorem search_found (hraw : raw < 2 ^ 31) (hmem : raw ∈ t.entries) :
    t.entries[t.search raw]? = some raw := by
  obtain ⟨k, hk, hkraw⟩ := Array.mem_iff_getElem.mp hmem
  have hgetk : t.entries[k]? = some raw := by
    rw [Array.getElem?_eq_getElem hk, hkraw]
  have hhit : t.probe raw (t.search raw) = .eq :=
    bisect_found (graded hraw) le_rfl (Nat.zero_le k) hk ((probe_hit hraw hgetk).mpr rfl)
  have hlt : t.search raw < t.entries.size := search_lt (Nat.zero_lt_of_lt hk)
  have hget := Array.getElem?_eq_getElem hlt
  rw [hget, (probe_hit hraw hget).mp hhit]

/-- Otherwise the last probe is the next-highest entry at a leaf, and the one below it elsewhere. -/
theorem search_missed (hraw : raw < 2 ^ 31) (hmem : raw ∉ t.entries) {i : Nat}
    (hnext : t.NextHighest raw i) :
    t.search raw = if leaf t.entries.size i then i else i - 1 := by
  obtain ⟨⟨e, hi, hlt⟩, hleast⟩ := hnext
  have hisize := (Array.getElem?_eq_some_iff.mp hi).1
  have hbelow : ∀ j, 0 ≤ j → j < i → t.probe raw j = .gt := by
    intro j _ hj
    have hjsize := hj.trans hisize
    have hgetj := Array.getElem?_eq_getElem hjsize
    have hle := mt (fun h => hleast ⟨_, hgetj, h⟩) (Nat.not_le.mpr hj)
    have hne : t.entries[j] ≠ raw := fun h => hmem (h ▸ Array.getElem_mem _)
    exact (probe_gt hraw hgetj).mpr (lt_of_le_of_ne (Nat.not_lt.mp hle) hne)
  have habove : ∀ j, i ≤ j → j < t.entries.size → t.probe raw j = .lt := by
    intro j hij hj
    have hgetj := Array.getElem?_eq_getElem hj
    exact (probe_lt hraw hgetj).mpr (hlt.trans_le (le_of_le hi hgetj hij))
  exact bisect_between (Nat.zero_le i) hisize hbelow habove

theorem exists_nextHighest (h : t.Covers raw) (hmem : raw ∉ t.entries) :
    ∃ i, t.NextHighest raw i := by
  obtain ⟨e, hlast, hle⟩ := h
  have hne : e ≠ raw := fun heq => hmem (heq ▸ Array.mem_of_back? hlast)
  have hsome : ∃ j, ∃ e, t.entries[j]? = some e ∧ raw < e :=
    ⟨t.entries.size - 1, e, by rwa [Array.back?_eq_getElem?] at hlast, lt_of_le_of_ne hle hne.symm⟩
  classical
  exact ⟨Nat.find hsome, Nat.find_spec hsome, fun j hj => Nat.find_min' hsome hj⟩

theorem search_lowerBound_iff (h : t.Covers raw) :
    t.LowerBound raw (t.search raw) ↔
      raw ∈ t.entries ∨ ∃ i, t.NextHighest raw i ∧ leaf t.entries.size i = true := by
  by_cases hmem : raw ∈ t.entries
  · exact iff_of_true (.inl (search_found h.lt hmem)) (.inl hmem)
  · obtain ⟨i, hnext⟩ := exists_nextHighest h hmem
    have hsearch := search_missed h.lt hmem hnext
    constructor
    · rintro (hget | ⟨_, hhighest⟩)
      · exact absurd (Array.mem_of_getElem? hget) hmem
      · refine .inr ⟨i, hnext, ?_⟩
        rw [hhighest.unique hnext] at hsearch
        by_contra hleaf
        rw [if_neg hleaf] at hsearch
        have hzero : i = 0 := by omega
        rw [hzero] at hleaf
        exact hleaf (leaf_zero t.entries.size)
    · rintro (hin | ⟨j, hj, hleaf⟩)
      · exact absurd hin hmem
      · refine .inr ⟨hmem, ?_⟩
        rw [hj.unique hnext] at hleaf
        rw [hsearch, if_pos hleaf]
        exact hnext

end CorrectionTable

theorem leaf_correctionTable {i : Nat} (h : i < correctionTable.entries.size) :
    leaf correctionTable.entries.size i = true ↔ i = 0 ∨ 3 ≤ i ∧ i % 2 = 1 := by
  have hsize : correctionTable.entries.size = 256 := by decide +kernel
  have hall : ∀ j : Fin 256, leaf 256 j = true ↔ j.val = 0 ∨ 3 ≤ j.val ∧ j.val % 2 = 1 := by
    decide +kernel
  rw [hsize] at h ⊢
  exact hall ⟨i, h⟩

/-- At 57 it finds 37, the entry below the next-highest one. -/
theorem search_below_nextHighest :
    ¬ ∀ (t : CorrectionTable) (raw : Nat), t.Covers raw → t.LowerBound raw (t.search raw) := by
  intro h
  have hsearch : correctionTable.search 38 = 57 := by decide +kernel
  have hget : correctionTable.entries[57]? = some 37 := by decide +kernel
  rcases h correctionTable 38 ⟨1023, by decide +kernel, by decide⟩ with hfound | ⟨_, hnext⟩
  · rw [hsearch, hget] at hfound
    exact absurd hfound (by decide)
  · rw [hsearch] at hnext
    obtain ⟨e, he, hlt⟩ := hnext.1
    cases hget.symm.trans he
    exact absurd hlt (by decide)

/-- Between 25 and 27, which is at a leaf. -/
theorem search_lowerBound_iff_table :
    26 ∉ correctionTable.entries ∧
      correctionTable.LowerBound 26 (correctionTable.search 26) := by
  have hbelow : correctionTable.entries[48]? = some 25 := by decide +kernel
  have habove : correctionTable.entries[49]? = some 27 := by decide +kernel
  have hnext : correctionTable.NextHighest 26 49 := by
    refine ⟨⟨27, habove, by decide⟩, ?_⟩
    rintro j ⟨e, he, hlt⟩
    by_contra hj
    have hle : e ≤ 25 := CorrectionTable.le_of_le he hbelow (by omega)
    omega
  have hleaf : leaf correctionTable.entries.size 49 = true :=
    (leaf_correctionTable (by decide +kernel)).mpr (.inr ⟨by decide, by decide⟩)
  refine ⟨by decide +kernel, ?_⟩
  exact (CorrectionTable.search_lowerBound_iff ⟨1023, by decide +kernel, by decide⟩).mpr
    (.inr ⟨49, hnext, hleaf⟩)

end Glowforge.Led
