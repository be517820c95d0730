import Mathlib.Algebra.Group.Nat.Defs
import Mathlib.Data.List.Basic

/-! Unsigned conversions of the kernel's `sscanf`, on a string as its characters. A number
is read up to the first character that is no digit of its base; narrowing is the caller's. -/
namespace Glowforge.Foundation.Scanf

def isspace (c : Char) : Bool := (9 ≤ c.toNat && c.toNat ≤ 13) || c.toNat = 32 || c.toNat = 160

def digitValue (c : Char) : Option Nat :=
  if 48 ≤ c.toNat ∧ c.toNat ≤ 57 then some (c.toNat - 48)
  else if 97 ≤ c.toNat ∧ c.toNat ≤ 102 then some (c.toNat - 87)
  else if 65 ≤ c.toNat ∧ c.toNat ≤ 70 then some (c.toNat - 55)
  else none

def digit (base : Nat) (c : Char) : Option Nat := (digitValue c).filter (· < base)

def isDigit (base : Nat) (c : Char) : Bool := (digit base c).isSome

/-- The digits at the front, on top of what has been read, and the rest. -/
def number (base acc : Nat) : List Char → Nat × List Char
  | [] => (acc, [])
  | c :: cs =>
      match digit base c with
      | some v => number base (acc * base + v) cs
      | none => (acc, c :: cs)

def startsX (s : List Char) : Bool := s.head? = some 'x' || s.head? = some 'X'

def skipPrefix (base : Nat) : List Char → List Char
  | [] => []
  | c :: cs => if base = 16 ∧ c = '0' ∧ startsX cs then cs.drop 1 else c :: cs

/-- One conversion: white space, at least one digit, and the number. -/
def scanUnsigned (base : Nat) (s : List Char) : Option (Nat × List Char) :=
  match s.dropWhile isspace with
  | [] => none
  | c :: cs => if isDigit base c then some (number base 0 (skipPrefix base (c :: cs))) else none

/-- What a string of digits denotes, on top of what stands before it. -/
def denoteFrom (base acc : Nat) (ds : List Char) : Nat :=
  ds.foldl (fun n c => n * base + (digit base c).getD 0) acc

def denote (base : Nat) (ds : List Char) : Nat := denoteFrom base 0 ds

def Ends (base : Nat) (s : List Char) : Prop :=
  ∀ c, s.head? = some c → isDigit base c = false ∧ c ≠ 'x' ∧ c ≠ 'X'

theorem ends_nil (base : Nat) : Ends base [] := nofun

theorem ends_cons {base : Nat} {c : Char} {s : List Char}
    (h : isDigit base c = false ∧ c ≠ 'x' ∧ c ≠ 'X') : Ends base (c :: s) := by
  intro c' hc
  rwa [← Option.some.inj hc]

variable {base : Nat} {ds s : List Char}

theorem digitValue_isSome {c : Char} (h : isDigit base c = true) : (digitValue c).isSome = true := by
  obtain ⟨v, hv⟩ := Option.isSome_iff_exists.mp h
  rw [(Option.filter_eq_some_iff.mp hv).1]
  rfl

theorem isspace_of_digit {c : Char} (h : isDigit base c = true) : isspace c = false := by
  have hvalue := digitValue_isSome h
  unfold digitValue at hvalue
  unfold isspace
  have hbounds : 48 ≤ c.toNat ∧ c.toNat ≤ 102 := by grind
  simp only [Bool.or_eq_false_iff, Bool.and_eq_false_iff, decide_eq_false_iff_not]
  omega

theorem number_digits (acc : Nat) (hds : ∀ c ∈ ds, isDigit base c = true) (hs : Ends base s) :
    number base acc (ds ++ s) = (denoteFrom base acc ds, s) := by
  induction ds generalizing acc with
  | nil =>
      cases s with
      | nil => rfl
      | cons c cs =>
          have hnone := Option.isSome_eq_false_iff.mp (hs c rfl).1
          rw [List.nil_append, number, Option.isNone_iff_eq_none.mp hnone]
          rfl
  | cons c cs ih =>
      obtain ⟨v, hv⟩ := Option.isSome_iff_exists.mp (hds c List.mem_cons_self)
      rw [List.cons_append, number, hv]
      have htail := ih (acc * base + v) fun c' hc' => hds c' (List.mem_cons_of_mem c hc')
      simp only [htail, denoteFrom, List.foldl_cons, hv, Option.getD_some]

theorem startsX_of_digit {c : Char} (h : isDigit base c = true) (cs : List Char) :
    startsX (c :: cs) = false := by
  have hvalue := digitValue_isSome h
  unfold startsX
  rw [List.head?_cons, Bool.or_eq_false_iff, decide_eq_false_iff_not, decide_eq_false_iff_not]
  constructor
  · rintro hc
    rw [Option.some.inj hc] at hvalue
    exact absurd hvalue (by decide)
  · rintro hc
    rw [Option.some.inj hc] at hvalue
    exact absurd hvalue (by decide)

theorem startsX_of_ends (h : Ends base s) : startsX s = false := by
  cases s with
  | nil => rfl
  | cons c cs =>
      obtain ⟨_, hx, hX⟩ := h c rfl
      simp [startsX, hx, hX]

theorem skipPrefix_digits {c : Char} (hds : ∀ d ∈ ds, isDigit base d = true) (hs : Ends base s) :
    skipPrefix base (c :: (ds ++ s)) = c :: (ds ++ s) := by
  have hplain : startsX (ds ++ s) = false := by
    cases ds with
    | nil => exact startsX_of_ends hs
    | cons d ds => exact startsX_of_digit (hds d List.mem_cons_self) (ds ++ s)
  rw [skipPrefix, hplain, if_neg]
  rintro ⟨_, _, h⟩
  contradiction

theorem scanUnsigned_digits (hne : ds ≠ []) (hds : ∀ c ∈ ds, isDigit base c = true)
    (hs : Ends base s) : scanUnsigned base (ds ++ s) = some (denote base ds, s) := by
  obtain ⟨c, cs, rfl⟩ := List.exists_cons_of_ne_nil hne
  have hc := hds c List.mem_cons_self
  have hdrop : (c :: cs ++ s).dropWhile isspace = c :: cs ++ s := by
    rw [List.cons_append, List.dropWhile_cons_of_neg]
    rw [isspace_of_digit hc]
    exact Bool.false_ne_true
  have hprefix := skipPrefix_digits (c := c) (fun d hd => hds d (List.mem_cons_of_mem c hd)) hs
  unfold scanUnsigned
  rw [hdrop]
  simp only [List.cons_append, hc, if_true, hprefix]
  exact congrArg some (number_digits 0 hds hs)

theorem digit_lt {c : Char} {v : Nat} (h : digit base c = some v) : v < base := by
  have hlt := (Option.filter_eq_some_iff.mp h).2
  exact of_decide_eq_true hlt

theorem denoteFrom_lt (hds : ∀ c ∈ ds, isDigit base c = true) (acc : Nat) :
    denoteFrom base acc ds < (acc + 1) * base ^ ds.length := by
  induction ds generalizing acc with
  | nil => simp [denoteFrom]
  | cons c cs ih =>
      obtain ⟨v, hv⟩ := Option.isSome_iff_exists.mp (hds c List.mem_cons_self)
      have hlt := digit_lt hv
      have htail := ih (fun d hd => hds d (List.mem_cons_of_mem c hd)) (acc * base + v)
      have hstep : acc * base + v + 1 ≤ (acc + 1) * base := by
        rw [Nat.add_mul]
        omega
      have hgrow := Nat.mul_le_mul_right (base ^ cs.length) hstep
      rw [List.length_cons, Nat.pow_succ, Nat.mul_comm (base ^ cs.length), ← Nat.mul_assoc]
      simp only [denoteFrom, List.foldl_cons, hv, Option.getD_some] at htail ⊢
      omega

theorem denote_lt (hds : ∀ c ∈ ds, isDigit base c = true) : denote base ds < base ^ ds.length := by
  have h := denoteFrom_lt hds 0
  rwa [Nat.zero_add, Nat.one_mul] at h

end Glowforge.Foundation.Scanf
