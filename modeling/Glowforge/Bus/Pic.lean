import Glowforge.Foundation.Scanf
import Mathlib.Logic.Function.Basic

/-! The analog I/O controller behind its SPI bus (`pic.c`) and the head behind its I2C bus
(`head.c`): the transactions that a write to one of their attributes starts. -/
namespace Glowforge.Bus
open Foundation.Scanf

/-- Besides those of the drivers, a transfer has errors of its own. -/
inductive Errno where
  | EINVAL
  | E2BIG
  | EIO
  | transfer (e : Nat)
  deriving DecidableEq, Repr

abbrev Byte := BitVec 8

abbrev PicValue := BitVec 16

/-- `enum pic_register`, in order. -/
inductive PicRegister where
  | dummy
  | waterTherm1
  | waterTherm2
  | tecTherm
  | pwrTherm
  | lidIrDet1
  | lidIrDet2
  | lidIrDet3
  | lidIrDet4
  | stepDacX
  | stepDacY
  | lidLed
  | buttonLed1
  | buttonLed2
  | buttonLed3
  | hvIsense
  | hvVsense
  deriving DecidableEq, Repr

def PicRegister.number (reg : PicRegister) : Byte := BitVec.ofNat 8 reg.ctorIdx

def picNumRegisters : Nat := PicRegister.hvVsense.ctorIdx + 1

/-- Enough to write the entire register set and read it back. -/
def maxRegistersPerTransfer : Nat := picNumRegisters * 2

def pageSize : Nat := 4096

/-- `REGISTER_READ_COMMAND`, as the `u8` it is stored in. -/
def registerReadCommand (reg : Byte) : Byte := reg <<< 1

def registerWriteCommand (reg : Byte) : Byte := 0x80 ||| (reg <<< 1)

/-- `struct pic_transaction`, which is packed. -/
structure PicTransaction where
  cmd : Byte
  value : PicValue
  deriving DecidableEq, Repr

def loByte (v : PicValue) : Byte := v.setWidth 8

def hiByte (v : PicValue) : Byte := (v >>> 8).setWidth 8

def PicTransaction.bytes (t : PicTransaction) : List Byte := [t.cmd, loByte t.value, hiByte t.value]

inductive Obs where
  | spiSyncTransfer (tx : List Byte)
  | i2cSmbusWriteWordData (reg : Byte) (value : PicValue)
  deriving DecidableEq, Repr

/-- The transmit buffer of `struct pic`, which keeps what it held. -/
structure Pic where
  txbuf : Nat → Byte

/-- What the bus answers to a transfer: an error, or what was received. -/
abbrev Answer := Except Errno (Nat → Byte)

namespace Pic

def transmit (self : Pic) (len : Nat) : List Obs :=
  [.spiSyncTransfer ((List.range len).map self.txbuf)]

/-- The transmit buffer of `pic_write_one_register`: the write, and a read to verify it whose
value is left from before. -/
def loadOne (self : Pic) (reg : Byte) (newValue : PicValue) : Pic where
  txbuf i :=
    if i = 0 then registerWriteCommand reg
    else if i = 1 then loByte newValue
    else if i = 2 then hiByte newValue
    else if i = 3 then registerReadCommand reg
    else self.txbuf i

def picWriteOneRegister (self : Pic) (reg : Byte) (newValue : PicValue) (answer : Answer) :
    List Obs × Except Errno Unit :=
  ((self.loadOne reg newValue).transmit 6,
    answer.bind fun rx =>
      if loByte newValue = rx 4 ∧ hiByte newValue = rx 5 then .ok () else .error Errno.EIO)

/-- `memcpy` to the transmit buffer. -/
def load (self : Pic) (buf : List Byte) : Pic where
  txbuf i := buf.getD i (self.txbuf i)

def picWriteData (self : Pic) (buf : List Byte) (answer : Answer) : List Obs × Except Errno Unit :=
  if buf.length % 3 ≠ 0 then ([], .error .EINVAL)
  else if buf.length > maxRegistersPerTransfer * 3 then ([], .error .E2BIG)
  else ((self.load buf).transmit buf.length, answer.map fun _ => ())

theorem transmit_load (self : Pic) (buf : List Byte) :
    (self.load buf).transmit buf.length = [.spiSyncTransfer buf] := by
  have hbuf : (List.range buf.length).map (self.load buf).txbuf = buf := by
    apply List.ext_getElem
    · simp
    · intro i hi hi'
      simp [load, hi']
  unfold transmit
  rw [hbuf]

theorem transmit_loadOne (self : Pic) (reg : Byte) (newValue : PicValue) :
    (self.loadOne reg newValue).transmit 6 =
      [.spiSyncTransfer (PicTransaction.bytes ⟨registerWriteCommand reg, newValue⟩ ++
        [registerReadCommand reg, self.txbuf 4, self.txbuf 5])] := rfl

theorem picWriteData_transmits {self : Pic} {buf : List Byte} (answer : Answer)
    (hwhole : buf.length % 3 = 0) (hfits : buf.length ≤ maxRegistersPerTransfer * 3) :
    self.picWriteData buf answer = ([.spiSyncTransfer buf], answer.map fun _ => ()) := by
  rw [picWriteData, if_neg (not_not.mpr hwhole), if_neg (Nat.not_lt.mpr hfits), transmit_load]

end Pic

def isWrite (cmd : Byte) : Bool := cmd.getLsbD 7

/-- The register in bits 6..1 of a command. -/
def register (cmd : Byte) : Nat := cmd.toNat / 2 % 64

/-- Only registers below 64 fit a command: the bit above is the write flag. -/
theorem read_command_iff (reg : Byte) :
    isWrite (registerReadCommand reg) = false ∧ register (registerReadCommand reg) = reg.toNat ↔
      reg.toNat < 64 := by
  have hall : ∀ r : Byte, isWrite (registerReadCommand r) = false ∧
      register (registerReadCommand r) = r.toNat ↔ r.toNat < 64 := by decide +kernel
  exact hall reg

theorem write_command_iff (reg : Byte) :
    isWrite (registerWriteCommand reg) = true ∧ register (registerWriteCommand reg) = reg.toNat ↔
      reg.toNat < 64 := by
  have hall : ∀ r : Byte, isWrite (registerWriteCommand r) = true ∧
      register (registerWriteCommand r) = r.toNat ↔ r.toNat < 64 := by decide +kernel
  exact hall reg

theorem loByte_hiByte_inj {v w : PicValue} (hlo : loByte v = loByte w)
    (hhi : hiByte v = hiByte w) : v = w := by
  unfold loByte at hlo
  unfold hiByte at hhi
  bv_omega

end Glowforge.Bus
