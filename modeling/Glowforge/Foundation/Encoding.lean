import Mathlib.Data.BitVec

/-! Instruction words. An operation fixes some bits of its words and leaves the others
free for its operands, each in a field of its own: operations that differ in a bit both of
them fix are told apart, and the operands are read back from their fields. -/
namespace Glowforge.Foundation

variable {w : Nat}

/-- The words of an operation: the bits it fixes, and which it leaves free. -/
structure Pattern (w : Nat) where
  base : BitVec w
  free : BitVec w
  apart : base &&& free = 0#w

namespace Pattern

variable {p q : Pattern w} {v x : BitVec w}

def Matches (p : Pattern w) (x : BitVec w) : Prop := x &&& ~~~p.free = p.base

instance (p : Pattern w) (x : BitVec w) : Decidable (p.Matches x) :=
  inferInstanceAs (Decidable (_ = _))

def Admits (p : Pattern w) (v : BitVec w) : Prop := v &&& p.free = v

instance (p : Pattern w) (v : BitVec w) : Decidable (p.Admits v) :=
  inferInstanceAs (Decidable (_ = _))

def Distinct (p q : Pattern w) : Prop := (p.base ^^^ q.base) &&& ~~~(p.free ||| q.free) ≠ 0#w

instance (p q : Pattern w) : Decidable (p.Distinct q) := inferInstanceAs (Decidable (_ ≠ _))

theorem Admits.getLsbD (hv : p.Admits v) (i : Nat) :
    (v.getLsbD i = true → p.free.getLsbD i = true) ∧
      (p.base.getLsbD i = true → p.free.getLsbD i = false) := by
  have hb := congrArg (fun y : BitVec w => y.getLsbD i) p.apart
  have hf := congrArg (fun y : BitVec w => y.getLsbD i) hv
  simp only [BitVec.getLsbD_and, BitVec.getLsbD_zero] at hb hf
  cases hpb : p.base.getLsbD i <;> cases hpf : p.free.getLsbD i <;> simp_all

theorem matches_or (hv : p.Admits v) : p.Matches (p.base ||| v) := by
  apply BitVec.eq_of_getLsbD_eq
  intro i hi
  obtain ⟨hfree, hfixed⟩ := hv.getLsbD i
  rw [BitVec.getLsbD_and, BitVec.getLsbD_or, BitVec.getLsbD_not]
  cases hpb : p.base.getLsbD i <;> cases hpv : v.getLsbD i <;> simp_all

theorem Distinct.not_matches (h : p.Distinct q) (hq : q.Matches x) : ¬ p.Matches x := by
  intro hp
  apply h
  apply BitVec.eq_of_getLsbD_eq
  intro i hi
  have hpi := congrArg (fun y : BitVec w => y.getLsbD i) hp
  have hqi := congrArg (fun y : BitVec w => y.getLsbD i) hq
  simp only [BitVec.getLsbD_and, BitVec.getLsbD_not, hi, decide_true, Bool.true_and] at hpi hqi
  simp only [BitVec.getLsbD_and, BitVec.getLsbD_or, BitVec.getLsbD_xor, BitVec.getLsbD_not,
    BitVec.getLsbD_zero, hi, decide_true, Bool.true_and, ← hpi, ← hqi]
  cases x.getLsbD i <;> cases p.free.getLsbD i <;> cases q.free.getLsbD i <;> rfl

end Pattern

/-- The first operation of a table that a word is one of. -/
def operation {κ : Type*} (pattern : κ → Pattern w) (table : List κ) (x : BitVec w) : Option κ :=
  table.find? fun k => (pattern k).Matches x

theorem operation_or {κ : Type*} {pattern : κ → Pattern w} {table : List κ} {k : κ} {v : BitVec w}
    (hk : k ∈ table) (hdistinct : ∀ j ∈ table, j = k ∨ (pattern j).Distinct (pattern k))
    (hv : (pattern k).Admits v) : operation pattern table ((pattern k).base ||| v) = some k := by
  have hmatches := Pattern.matches_or hv
  induction table with
  | nil => contradiction
  | cons j js ih =>
      unfold operation at ih ⊢
      by_cases hj : j = k
      · rw [List.find?_cons_of_pos (by rw [hj]; exact decide_eq_true hmatches), hj]
      · have hother := (hdistinct j List.mem_cons_self).resolve_left hj
        have hmem := (List.mem_cons.mp hk).resolve_left (Ne.symm hj)
        rw [List.find?_cons_of_neg
          (by rw [decide_eq_false (hother.not_matches hmatches)]; exact Bool.false_ne_true)]
        exact ih hmem fun i hi => hdistinct i (List.mem_cons_of_mem j hi)

structure BitField where
  shift : Nat
  width : Nat
  deriving DecidableEq, Repr

namespace BitField

def bits (w : Nat) (f : BitField) : BitVec w := BitVec.ofNat w (2 ^ f.width - 1) <<< f.shift

def put (w : Nat) (f : BitField) (n : Int) : BitVec w :=
  (BitVec.ofInt w n &&& BitVec.ofNat w (2 ^ f.width - 1)) <<< f.shift

def get (f : BitField) (x : BitVec w) : BitVec f.width := x.extractLsb' f.shift f.width

variable {f : BitField} {n : Int} {x : BitVec w}

theorem getLsbD_ofInt (k : Nat) (n : Int) {i : Nat} (hi : i < k) (hk : k ≤ w) :
    (BitVec.ofInt w n).getLsbD i = (BitVec.ofInt k n).getLsbD i := by
  have hw : i < w := Nat.lt_of_lt_of_le hi hk
  cases n with
  | ofNat n =>
      rw [Int.ofNat_eq_natCast, BitVec.ofInt_natCast, BitVec.ofInt_natCast, BitVec.getLsbD_ofNat,
        BitVec.getLsbD_ofNat, decide_eq_true hi, decide_eq_true hw]
  | negSucc n =>
      rw [BitVec.ofInt_negSucc_eq_not_ofNat, BitVec.ofInt_negSucc_eq_not_ofNat, BitVec.getLsbD_not,
        BitVec.getLsbD_not, BitVec.getLsbD_ofNat, BitVec.getLsbD_ofNat, decide_eq_true hi,
        decide_eq_true hw]

theorem getLsbD_bits {i : Nat} :
    (f.bits w).getLsbD i = (decide (i < w) && decide (f.shift ≤ i) && decide (i < f.shift + f.width)) := by
  unfold bits
  rw [BitVec.getLsbD_shiftLeft, BitVec.getLsbD_ofNat, Nat.testBit_two_pow_sub_one]
  by_cases hw : i < w <;> by_cases hs : f.shift ≤ i <;> by_cases hn : i < f.shift + f.width <;>
    simp [hw, hs, hn] <;> omega

theorem put_and_bits (n : Int) : f.put w n &&& f.bits w = f.put w n := by
  unfold put bits
  rw [← BitVec.shiftLeft_and_distrib, BitVec.and_assoc, BitVec.and_self]

theorem get_put (hfits : f.shift + f.width ≤ w) (n : Int) :
    f.get (f.put w n) = BitVec.ofInt f.width n := by
  apply BitVec.eq_of_getLsbD_eq
  intro i hi
  have hmask : (2 ^ f.width - 1).testBit i = true := by
    rw [Nat.testBit_two_pow_sub_one]
    exact decide_eq_true hi
  have hw : f.shift + i < w := by omega
  have hi' : i < w := by omega
  rw [get, put, BitVec.getLsbD_extractLsb', BitVec.getLsbD_shiftLeft, Nat.add_sub_cancel_left,
    BitVec.getLsbD_and, BitVec.getLsbD_ofNat, hmask, getLsbD_ofInt f.width n hi (by omega)]
  simp [hi, hw, hi']

theorem get_or_of_clear {y : BitVec w} (h : y &&& f.bits w = 0#w) : f.get (x ||| y) = f.get x := by
  apply BitVec.eq_of_getLsbD_eq
  intro i hi
  have hy := congrArg (fun v : BitVec w => v.getLsbD (f.shift + i)) h
  simp only [BitVec.getLsbD_and, getLsbD_bits, BitVec.getLsbD_zero] at hy
  simp only [get, BitVec.getLsbD_extractLsb', BitVec.getLsbD_or]
  by_cases hw : f.shift + i < w
  · have hin : f.shift + i < f.shift + f.width := by omega
    rw [decide_eq_true hw, decide_eq_true (Nat.le_add_right ..), decide_eq_true hin,
      Bool.and_self, Bool.and_self, Bool.and_true] at hy
    rw [hy, Bool.or_false]
  · simp [BitVec.getLsbD_of_ge y (f.shift + i) (Nat.le_of_not_lt hw)]

theorem get_or_of_clear_left {y : BitVec w} (h : y &&& f.bits w = 0#w) :
    f.get (y ||| x) = f.get x := by
  rw [BitVec.or_comm, get_or_of_clear h]

theorem get_or_put {y : BitVec w} (hfits : f.shift + f.width ≤ w) (h : y &&& f.bits w = 0#w)
    (n : Int) : f.get (y ||| f.put w n) = BitVec.ofInt f.width n := by
  rw [get_or_of_clear_left h, get_put hfits]

theorem put_and_of_le {free : BitVec w} (h : f.bits w &&& free = f.bits w) (n : Int) :
    f.put w n &&& free = f.put w n := by
  rw [← put_and_bits, BitVec.and_assoc, h]

theorem and_bits_of_le {base free : BitVec w} (hbase : base &&& free = 0#w)
    (h : f.bits w &&& free = f.bits w) : base &&& f.bits w = 0#w := by
  rw [← h, BitVec.and_comm (f.bits w), ← BitVec.and_assoc, hbase, BitVec.zero_and]

theorem or_and_of_clear {y m : BitVec w} (hx : x &&& m = 0#w) (hy : y &&& m = 0#w) :
    (x ||| y) &&& m = 0#w := by
  rw [BitVec.and_or_distrib_right, hx, hy, BitVec.or_zero]

theorem or_and_of_le {y m : BitVec w} (hx : x &&& m = x) (hy : y &&& m = y) :
    (x ||| y) &&& m = x ||| y := by
  rw [BitVec.and_or_distrib_right, hx, hy]

theorem put_and_of_apart {g : BitField} (h : f.bits w &&& g.bits w = 0#w) (n : Int) :
    f.put w n &&& g.bits w = 0#w := by
  rw [← put_and_bits, BitVec.and_assoc, h, BitVec.and_zero]

end BitField

end Glowforge.Foundation
