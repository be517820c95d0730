import Glowforge.Bus.Pic
import Mathlib.Data.List.TakeWhile

/-! The ten-bit registers of the PIC and the head, written in decimal. The number is
narrowed to 16 bits before its range is checked. -/
namespace Glowforge.Bus
open Foundation.Scanf

/-- The string of a buffer ends at its first null. -/
def cString (buf : List Char) : List Char := buf.takeWhile (· ≠ '\x00')

/-- `sscanf(buf, "%hu", &new_value)` -/
def scanHu (buf : List Char) : Option PicValue :=
  (scanUnsigned 10 (cString buf)).map fun r => BitVec.ofNat 16 r.1

def storeTenBit (write : PicValue → List Obs × Except Errno Unit) (buf : List Char) :
    List Obs × Except Errno Nat :=
  if buf.length ≥ pageSize then ([], .error .E2BIG)
  else
    match scanHu buf with
    | none => ([], .error .EINVAL)
    | some newValue =>
        if newValue.toNat > 0x03ff then ([], .error .EINVAL)
        else ((write newValue).1, (write newValue).2.map fun _ => buf.length)

def picWriteRegisterAscii (self : Pic) (reg : PicRegister) (answer : Answer) (buf : List Char) :
    List Obs × Except Errno Nat :=
  storeTenBit (fun newValue => self.picWriteOneRegister reg.number newValue answer) buf

def headWriteI2cWord (reg : Byte) (newValue : PicValue) (answer : Except Errno Unit) :
    List Obs × Except Errno Unit :=
  ([.i2cSmbusWriteWordData reg newValue], answer)

def headWriteDwordAscii (reg : Byte) (answer : Except Errno Unit) (buf : List Char) :
    List Obs × Except Errno Nat :=
  storeTenBit (fun newValue => headWriteI2cWord reg newValue answer) buf

/-- A decimal string that the attribute's buffer holds with its terminator. -/
structure DecimalString where
  chars : List Char
  nonempty : chars ≠ []
  digits : ∀ c ∈ chars, isDigit 10 c = true
  short : chars.length < pageSize

def DecimalString.value (s : DecimalString) : Nat := denote 10 s.chars

/-- The transfer writes the number to the register, whatever it does after. -/
def Obs.Writes (reg : Byte) (n : Nat) : Obs → Prop
  | .spiSyncTransfer tx =>
      ∃ v : PicValue, v.toNat = n ∧ tx.take 3 = PicTransaction.bytes ⟨registerWriteCommand reg, v⟩
  | .i2cSmbusWriteWordData r v => r = reg ∧ v.toNat = n

/-- A write of the number is started exactly if it has ten bits; otherwise there is an error
and nothing is transferred. -/
def RangeChecked (reg : Byte) (n : Nat) (r : List Obs × Except Errno Nat) : Prop :=
  (n ≤ 1023 ∧ ∃ o, r.1 = [o] ∧ o.Writes reg n) ∨
  (1023 < n ∧ r.1 = [] ∧ ∃ e, r.2 = .error e)

/-- The number fits the 16 bits it is narrowed to, or is out of range there too. -/
def NarrowsOutOfRange (n : Nat) : Prop := n < 2 ^ 16 ∨ 1023 < n % 2 ^ 16

theorem isDigit_ne_null {base : Nat} {c : Char} (h : isDigit base c = true) : c ≠ '\x00' := by
  rintro rfl
  exact absurd (digitValue_isSome h) (by decide)

theorem DecimalString.scanHu (s : DecimalString) :
    Bus.scanHu s.chars = some (BitVec.ofNat 16 s.value) := by
  have hstring : cString s.chars = s.chars := by
    apply List.takeWhile_eq_self_iff.mpr
    intro c hc
    exact decide_eq_true (isDigit_ne_null (s.digits c hc))
  have hscan := scanUnsigned_digits s.nonempty s.digits (ends_nil 10)
  rw [List.append_nil] at hscan
  unfold Bus.scanHu
  rw [hstring, hscan]
  rfl

theorem storeTenBit_rangeChecked_iff {reg : Byte}
    {write : PicValue → List Obs × Except Errno Unit}
    (hwrite : ∀ v, ∃ o, (write v).1 = [o] ∧ ∀ n, o.Writes reg n ↔ v.toNat = n)
    (s : DecimalString) :
    RangeChecked reg s.value (storeTenBit write s.chars) ↔ NarrowsOutOfRange s.value := by
  obtain ⟨o, hone, hwrites⟩ := hwrite (BitVec.ofNat 16 s.value)
  have hnarrow : (BitVec.ofNat 16 s.value).toNat = s.value % 2 ^ 16 := BitVec.toNat_ofNat ..
  have hshort : ¬ s.chars.length ≥ pageSize := Nat.not_le.mpr s.short
  unfold storeTenBit RangeChecked NarrowsOutOfRange
  rw [if_neg hshort, s.scanHu]
  simp only [hnarrow]
  by_cases hout : s.value % 2 ^ 16 > 0x03ff
  · rw [if_pos hout]
    have hbig : 1023 < s.value := by omega
    exact iff_of_true (.inr ⟨hbig, rfl, .EINVAL, rfl⟩) (.inr hout)
  · rw [if_neg hout, hone]
    constructor
    · rintro (⟨hsmall, _⟩ | ⟨_, hnone, _⟩)
      · omega
      · contradiction
    · rintro (hfits | hbig)
      · refine .inl ⟨by omega, o, rfl, (hwrites _).mpr ?_⟩
        omega
      · omega

theorem Pic.picWriteOneRegister_writes (self : Pic) (reg : Byte) (answer : Answer) (v : PicValue) :
    ∃ o, (self.picWriteOneRegister reg v answer).1 = [o] ∧ ∀ n, o.Writes reg n ↔ v.toNat = n := by
  refine ⟨_, self.transmit_loadOne reg v, ?_⟩
  intro n
  constructor
  · rintro ⟨w, rfl, hbytes⟩
    obtain ⟨_, htail⟩ := List.cons.inj hbytes
    obtain ⟨hlo, htail⟩ := List.cons.inj htail
    have heq : v = w := loByte_hiByte_inj hlo (List.cons.inj htail).1
    rw [heq]
  · rintro rfl
    exact ⟨v, rfl, rfl⟩

theorem headWriteI2cWord_writes (reg : Byte) (answer : Except Errno Unit) (v : PicValue) :
    ∃ o, (headWriteI2cWord reg v answer).1 = [o] ∧ ∀ n, o.Writes reg n ↔ v.toNat = n :=
  ⟨_, rfl, fun _ => and_iff_right rfl⟩

theorem ascii_rangeChecked_iff (s : DecimalString) (self : Pic) (reg : PicRegister)
    (picAnswer : Answer) (headReg : Byte) (headAnswer : Except Errno Unit) :
    (RangeChecked reg.number s.value (picWriteRegisterAscii self reg picAnswer s.chars) ↔
      NarrowsOutOfRange s.value) ∧
    (RangeChecked headReg s.value (headWriteDwordAscii headReg headAnswer s.chars) ↔
      NarrowsOutOfRange s.value) :=
  ⟨storeTenBit_rangeChecked_iff (self.picWriteOneRegister_writes reg.number picAnswer) s,
    storeTenBit_rangeChecked_iff (headWriteI2cWord_writes headReg headAnswer) s⟩

def twoPow16 : DecimalString where
  chars := ['6', '5', '5', '3', '6']
  nonempty := by decide
  digits := List.all_eq_true.mp (by decide)
  short := by decide

theorem ascii_wraps :
    (¬ ∀ (s : DecimalString) (self : Pic) (reg : PicRegister) (answer : Answer),
      RangeChecked reg.number s.value (picWriteRegisterAscii self reg answer s.chars)) ∧
    ¬ ∀ (s : DecimalString) (reg : Byte) (answer : Except Errno Unit),
      RangeChecked reg s.value (headWriteDwordAscii reg answer s.chars) := by
  have hvalue : twoPow16.value = 2 ^ 16 := by decide
  have hwraps : ¬ NarrowsOutOfRange twoPow16.value := by
    rw [hvalue]
    unfold NarrowsOutOfRange
    omega
  constructor
  · intro h
    have hchecked := h twoPow16 ⟨fun _ => 0⟩ .stepDacX (.error Errno.EIO)
    exact hwraps ((storeTenBit_rangeChecked_iff
      (Pic.picWriteOneRegister_writes _ _ _) twoPow16).mp hchecked)
  · intro h
    have hchecked := h twoPow16 0x1c (.ok ())
    exact hwraps ((storeTenBit_rangeChecked_iff
      (headWriteI2cWord_writes _ _) twoPow16).mp hchecked)

end Glowforge.Bus
