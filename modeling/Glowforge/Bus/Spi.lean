import Glowforge.Bus.Hex
import Glowforge.Foundation.Printf

/-! The transfers of the PIC driver (`pic.c`), with the buffers they go through: what a call
leaves in them the next one still finds there. -/
namespace Glowforge.Bus

structure PicData where
  tx : Pic
  rxbuf : Nat → Byte
  rxbufSize : Nat

/-- How a transfer ended, and what it put into the receive buffer. -/
structure Transferred where
  status : Except Errno Unit
  rx : Nat → Option Byte

abbrev Spi (σ : Type) := List Byte → σ → Transferred × σ

namespace PicData

/-- `rxbuf[i].value` -/
def value (self : PicData) (i : Nat) : PicValue := self.rxbuf (3 * i + 2) ++ self.rxbuf (3 * i + 1)

section Calls

variable {σ : Type} (spi : Spi σ)

/-- `pic_transfer` of the first `len` bytes of the transmit buffer as it has been filled. -/
def picTransfer (tx : Pic) (len : Nat) (self : PicData) (s : σ) : Except Errno Unit × PicData × σ :=
  let r := spi ((List.range len).map tx.txbuf) s
  -- also a transfer that fails may have received something
  let rxbuf := fun i => if i < len then (r.1.rx i).getD (self.rxbuf i) else self.rxbuf i
  (r.1.status, ⟨tx, rxbuf, len⟩, r.2)

end Calls

end PicData

namespace Pic

/-- The read commands from transaction `skip` on; their values are left from before. -/
def loadReads (self : Pic) (skip n firstReg : Nat) : Pic where
  txbuf j :=
    if skip ≤ j / 3 ∧ j / 3 < skip + n ∧ j % 3 = 0 then
      registerReadCommand (BitVec.ofNat 8 (firstReg + (j / 3 - skip)))
    else self.txbuf j

def loadWrites (self : Pic) (firstReg : Nat) (values : List PicValue) : Pic where
  txbuf j :=
    match values[j / 3]? with
    | none => self.txbuf j
    | some v =>
        if j % 3 = 0 then registerWriteCommand (BitVec.ofNat 8 (firstReg + j / 3))
        else if j % 3 = 1 then loByte v
        else hiByte v

end Pic

def valuesOf : List Byte → List PicValue
  | lo :: hi :: rest => (hi ++ lo) :: valuesOf rest
  | _ => []

namespace PicData

section Calls

variable {σ : Type} (spi : Spi σ)

def picReadOneRegister (reg : PicRegister) (self : PicData) (s : σ) :
    Except Errno PicValue × PicData × σ :=
  let r := picTransfer spi (self.tx.loadReads 0 1 reg.ctorIdx) 3 self s
  (r.1.map fun _ => r.2.1.value 0, r.2)

def picWriteOneRegister (reg : PicRegister) (newValue : PicValue) (self : PicData) (s : σ) :
    Except Errno Unit × PicData × σ :=
  let r := picTransfer spi (self.tx.loadOne reg.number newValue) 6 self s
  (r.1.bind fun _ => if newValue = r.2.1.value 1 then .ok () else .error Errno.EIO, r.2)

def picReadRegisterRange (firstReg lastReg : PicRegister) (self : PicData) (s : σ) :
    Except Errno (List PicValue) × PicData × σ :=
  if firstReg.ctorIdx > lastReg.ctorIdx then (.error .EINVAL, self, s)
  else
    let numRegs := lastReg.ctorIdx - firstReg.ctorIdx + 1
    let r := picTransfer spi (self.tx.loadReads 0 numRegs firstReg.ctorIdx) (3 * numRegs) self s
    (r.1.map fun _ => (List.range numRegs).map r.2.1.value, r.2)

/-- The number of bytes taken, if every register reads back as written. -/
def picWriteRegisterRange (firstReg lastReg : PicRegister) (buf : List Byte) (self : PicData)
    (s : σ) : Except Errno Nat × PicData × σ :=
  if firstReg.ctorIdx > lastReg.ctorIdx then (.error .EINVAL, self, s)
  else
    let numRegs := lastReg.ctorIdx - firstReg.ctorIdx + 1
    if buf.length ≠ 2 * numRegs then (.error .EINVAL, self, s)
    else
      let tx := (self.tx.loadWrites firstReg.ctorIdx (valuesOf buf)).loadReads numRegs numRegs
        firstReg.ctorIdx
      let r := picTransfer spi tx (3 * numRegs * 2) self s
      (r.1.bind fun _ =>
        if valuesOf buf = (List.range numRegs).map fun i => r.2.1.value (numRegs + i) then
          .ok buf.length
        else .error Errno.EIO, r.2)

def picWriteData (buf : List Byte) (self : PicData) (s : σ) : Except Errno Unit × PicData × σ :=
  if buf.length % 3 ≠ 0 then (.error .EINVAL, self, s)
  else if buf.length > maxRegistersPerTransfer * 3 then (.error .E2BIG, self, s)
  else picTransfer spi (self.tx.load buf) buf.length self s

end Calls

def picCopyLastReadData (self : PicData) : List Byte := (List.range self.rxbufSize).map self.rxbuf

/-- `%04hx` -/
def hex4 (v : PicValue) : List Char := Foundation.Printf.padded 16 4 v.toNat

def hexText (values : List PicValue) : List Char :=
  ((values.map hex4).intersperse [',']).flatten ++ ['\n']

def hexShow (self : PicData) : List Char :=
  hexText ((List.range (self.rxbufSize / 3)).map self.value)

end PicData

end Glowforge.Bus
