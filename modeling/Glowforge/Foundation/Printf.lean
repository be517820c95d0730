import Glowforge.Foundation.Scanf
import Mathlib.Data.List.Basic

/-! Unsigned conversions of the kernel's `printf`, and that its `sscanf` reads the same number
back from them. -/
namespace Glowforge.Foundation.Printf
open Scanf

def padded (base : Nat) : Nat → Nat → List Char
  | 0, _ => []
  | width + 1, n => padded base width (n / base) ++ [Nat.digitChar (n % base)]

/-- `%u` -/
def decimal (n : Nat) : List Char := Nat.toDigits 10 n

variable {base : Nat}

theorem digit_digitChar {k : Nat} (hbase : base ≤ 16) (hk : k < base) :
    digit base (Nat.digitChar k) = some k := by
  have hall : ∀ k : Fin 16, digitValue (Nat.digitChar k) = some k.val := by decide
  have hvalue := hall ⟨k, Nat.lt_of_lt_of_le hk hbase⟩
  unfold digit
  rw [hvalue]
  exact Option.filter_some_pos (decide_eq_true hk)

@[simp] theorem padded_length (base width n : Nat) : (padded base width n).length = width := by
  induction width generalizing n with
  | zero => rfl
  | succ width ih => rw [padded, List.length_append, ih, List.length_singleton]

theorem denote_concat (base : Nat) (ds : List Char) (c : Char) :
    denote base (ds ++ [c]) = denote base ds * base + (digit base c).getD 0 := by
  unfold denote denoteFrom
  rw [List.foldl_append]
  rfl

theorem denote_padded (hbase : base ≤ 16) (hpos : 0 < base) (width n : Nat) :
    denote base (padded base width n) = n % base ^ width := by
  induction width generalizing n with
  | zero => exact (Nat.mod_one n).symm
  | succ width ih =>
      have hfront : n / base % base ^ width = n % base ^ (width + 1) / base := by
        rw [Nat.pow_succ', Nat.mod_mul_right_div_self]
      have hlast : n % base = n % base ^ (width + 1) % base := by
        rw [Nat.pow_succ', Nat.mod_mul_right_mod]
      rw [padded, denote_concat, ih, digit_digitChar hbase (Nat.mod_lt n hpos), Option.getD_some,
        hfront, hlast, Nat.mul_comm, Nat.div_add_mod]

theorem padded_inj (hbase : base ≤ 16) (hpos : 0 < base) {width n m : Nat}
    (hn : n < base ^ width) (hm : m < base ^ width)
    (h : padded base width n = padded base width m) : n = m := by
  have hdenote := congrArg (denote base) h
  rwa [denote_padded hbase hpos, denote_padded hbase hpos, Nat.mod_eq_of_lt hn,
    Nat.mod_eq_of_lt hm] at hdenote

theorem digit_of_isDigit {c : Char} (h : c.isDigit = true) :
    digit 10 c = some (c.toNat - '0'.toNat) := by
  have hbounds : 48 ≤ c.toNat ∧ c.toNat ≤ 57 := by
    simpa [Char.isDigit, UInt32.le_iff_toNat_le] using h
  unfold digit digitValue
  rw [if_pos hbounds]
  exact Option.filter_some_pos (decide_eq_true (by omega))

theorem denoteFrom_ofDigitChars {ds : List Char} (h : ∀ c ∈ ds, c.isDigit = true) (acc : Nat) :
    denoteFrom 10 acc ds = Nat.ofDigitChars 10 ds acc := by
  induction ds generalizing acc with
  | nil => rfl
  | cons c cs ih =>
      have htail := ih fun d hd => h d (List.mem_cons_of_mem c hd)
      rw [Nat.ofDigitChars_cons, ← htail, Nat.mul_comm 10 acc]
      simp only [denoteFrom, List.foldl_cons, digit_of_isDigit (h c List.mem_cons_self),
        Option.getD_some]

theorem decimal_isDigit (n : Nat) : ∀ c ∈ decimal n, c.isDigit = true :=
  fun _ => Nat.isDigit_of_mem_toDigits (by decide) (by decide)

theorem decimal_digits (n : Nat) : ∀ c ∈ decimal n, isDigit 10 c = true := by
  intro c hc
  rw [isDigit, digit_of_isDigit (decimal_isDigit n c hc)]
  rfl

theorem denote_decimal (n : Nat) : denote 10 (decimal n) = n :=
  (denoteFrom_ofDigitChars (decimal_isDigit n) 0).trans Nat.ofDigitChars_ten_toDigits

theorem scanUnsigned_decimal (n : Nat) {s : List Char} (hs : Ends 10 s) :
    scanUnsigned 10 (decimal n ++ s) = some (n, s) := by
  have hne : decimal n ≠ [] := Nat.toDigits_ne_nil
  rw [scanUnsigned_digits hne (decimal_digits n) hs, denote_decimal]

end Glowforge.Foundation.Printf
