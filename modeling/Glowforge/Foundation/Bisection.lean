import Mathlib.Data.Nat.Init

/-! Bisection of an interval of positions that keeps its last probe. A probe says on
which side of the position the search goes on. What is found is exact where a probe
matches; between two positions it is the upper one only at a leaf of the bisection. -/
namespace Glowforge.Foundation.Bisection

/-- `probe i` is how the wanted value compares to what is at `i`. -/
def bisect (probe : Nat → Ordering) (start stop mid : Nat) : Nat :=
  if start < stop then
    let m := start + (stop - start) / 2
    match probe m with
    | .lt => bisect probe start m m
    | .gt => bisect probe (m + 1) stop m
    | .eq => m
  else mid
termination_by stop - start

/-- Position `i` ends alone in an interval, when one of length `n` is bisected. -/
def leaf (n i : Nat) : Bool :=
  if n ≤ 1 then true
  else if i < n / 2 then leaf (n / 2) i
  else if n / 2 < i then leaf (n - n / 2 - 1) (i - n / 2 - 1)
  else false
termination_by n

theorem leaf_alone {n i : Nat} (h : n ≤ 1) : leaf n i = true := by
  rw [leaf, if_pos h]

theorem leaf_lower {n i : Nat} (h : i < n / 2) : leaf n i = leaf (n / 2) i := by
  rw [leaf, if_neg (by omega), if_pos h]

theorem leaf_upper {n i : Nat} (hn : 1 < n) (h : n / 2 < i) :
    leaf n i = leaf (n - n / 2 - 1) (i - n / 2 - 1) := by
  rw [leaf, if_neg (by omega), if_neg (by omega), if_pos h]

theorem leaf_middle {n : Nat} (hn : 1 < n) : leaf n (n / 2) = false := by
  rw [leaf, if_neg (by omega), if_neg (by omega), if_neg (by omega)]

theorem leaf_zero (n : Nat) : leaf n 0 = true := by
  induction n using Nat.strongRecOn with
  | ind n ih =>
      by_cases hn : n ≤ 1
      · exact leaf_alone hn
      · rw [leaf_lower (by omega)]
        exact ih (n / 2) (by omega)

variable {probe : Nat → Ordering} {start stop mid : Nat}

theorem bisect_done (h : stop ≤ start) : bisect probe start stop mid = mid := by
  rw [bisect, if_neg (Nat.not_lt.mpr h)]

theorem bisect_lower (hlt : start < stop)
    (hprobe : probe (start + (stop - start) / 2) = .lt) :
    bisect probe start stop mid =
      bisect probe start (start + (stop - start) / 2) (start + (stop - start) / 2) := by
  rw [bisect, if_pos hlt]
  simp only [hprobe]

theorem bisect_upper (hlt : start < stop)
    (hprobe : probe (start + (stop - start) / 2) = .gt) :
    bisect probe start stop mid =
      bisect probe (start + (stop - start) / 2 + 1) stop (start + (stop - start) / 2) := by
  rw [bisect, if_pos hlt]
  simp only [hprobe]

theorem bisect_lt {n : Nat} (hstop : stop ≤ n) (hmid : mid < n) :
    bisect probe start stop mid < n := by
  fun_induction bisect probe start stop mid with
  | case1 start stop mid hlt m hprobe ih =>
      have hm : m < stop := by omega
      exact ih (by omega) (by omega)
  | case2 start stop mid hlt m hprobe ih =>
      have hm : m < stop := by omega
      exact ih hstop (by omega)
  | case3 start stop mid hlt m hprobe => omega
  | case4 start stop mid hlt => exact hmid

/-- The probes go from `.gt` over `.eq` to `.lt`. -/
structure Graded (probe : Nat → Ordering) (n : Nat) : Prop where
  gt_below : ∀ i j, i ≤ j → j < n → probe j = .gt → probe i = .gt
  lt_above : ∀ i j, i ≤ j → j < n → probe i = .lt → probe j = .lt

theorem bisect_found {n k : Nat} (h : Graded probe n) (hstop : stop ≤ n) (hstart : start ≤ k)
    (hk : k < stop) (hprobe : probe k = .eq) : probe (bisect probe start stop mid) = .eq := by
  fun_induction bisect probe start stop mid with
  | case1 start stop mid hlt m hleft ih =>
      have hkm : k < m := by
        apply Nat.lt_of_not_le
        intro hle
        have habove := h.lt_above m k hle (by omega) hleft
        rw [hprobe] at habove
        contradiction
      exact ih (by omega) hstart hkm
  | case2 start stop mid hlt m hright ih =>
      have hmk : m < k := by
        apply Nat.lt_of_not_le
        intro hle
        have hbelow := h.gt_below k m hle (by omega) hright
        rw [hprobe] at hbelow
        contradiction
      exact ih hstop hmk hk
  | case3 start stop mid hlt m hhit => exact hhit
  | case4 start stop mid hlt => omega

theorem bisect_beyond (hlt : start < stop) (h : ∀ i, start ≤ i → i < stop → probe i = .gt) :
    bisect probe start stop mid = stop - 1 := by
  induction hlen : stop - start using Nat.strongRecOn generalizing start mid with
  | ind len ih =>
      have hprobe := h (start + (stop - start) / 2) (by omega) (by omega)
      rw [bisect_upper hlt hprobe]
      by_cases hmore : start + (stop - start) / 2 + 1 < stop
      · exact ih (stop - (start + (stop - start) / 2 + 1)) (by omega) hmore
          (fun i hi => h i (by omega)) rfl
      · rw [bisect_done (Nat.not_lt.mp hmore)]
        omega

theorem bisect_between {cut : Nat} (hstart : start ≤ cut) (hcut : cut < stop)
    (hbelow : ∀ i, start ≤ i → i < cut → probe i = .gt)
    (habove : ∀ i, cut ≤ i → i < stop → probe i = .lt) :
    bisect probe start stop mid =
      if leaf (stop - start) (cut - start) then cut else cut - 1 := by
  induction hlen : stop - start using Nat.strongRecOn generalizing start stop mid with
  | ind len ih =>
      have hlt : start < stop := by omega
      rcases Nat.lt_trichotomy cut (start + (stop - start) / 2) with hless | heq | hmore
      · have hprobe := habove (start + (stop - start) / 2) (Nat.le_of_lt hless) (by omega)
        have hhalf : start + (stop - start) / 2 - start = len / 2 := by omega
        rw [bisect_lower hlt hprobe, leaf_lower (by omega)]
        exact ih (len / 2) (by omega) hstart hless hbelow
          (fun i hi him => habove i hi (by omega)) hhalf
      · have hprobe := habove (start + (stop - start) / 2) (Nat.le_of_eq heq) (by omega)
        rw [bisect_lower hlt hprobe, ← heq]
        by_cases hone : len ≤ 1
        · rw [leaf_alone hone, if_pos rfl, bisect_done (by omega)]
        · have hplace : cut - start = len / 2 := by omega
          rw [hplace, leaf_middle (by omega), if_neg Bool.false_ne_true,
            bisect_beyond (by omega) hbelow]
      · have hprobe := hbelow (start + (stop - start) / 2) (by omega) hmore
        have hrest : stop - (start + (stop - start) / 2 + 1) = len - len / 2 - 1 := by omega
        have hplace : cut - start - len / 2 - 1 = cut - (start + (stop - start) / 2 + 1) := by
          omega
        rw [bisect_upper hlt hprobe, leaf_upper (by omega) (by omega), hplace]
        exact ih (len - len / 2 - 1) (by omega) hmore hcut (fun i hi => hbelow i (by omega))
          habove hrest

end Glowforge.Foundation.Bisection
