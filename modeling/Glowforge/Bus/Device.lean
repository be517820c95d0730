import Glowforge.Bus.Spi

/-! The PIC behind its bus. The driver's calls are bytes in buffers; to the device they are
reads and writes of its registers, one after the other. Each call comes to a list of these,
and to what is made of the values that come back, whatever was in the buffers before. -/
namespace Glowforge.Bus

inductive Op where
  | read (reg : Nat)
  | write (reg : Nat) (value : PicValue)
  deriving DecidableEq, Repr

def PicTransaction.op (t : PicTransaction) : Op :=
  if isWrite t.cmd then .write (register t.cmd) t.value else .read (register t.cmd)

def opsOf : List Byte → List Op
  | cmd :: lo :: hi :: rest => PicTransaction.op ⟨cmd, hi ++ lo⟩ :: opsOf rest
  | _ => []

/-- A device: a value goes back with every operation, a byte in the place of each command, and
a transfer may fail whatever the device has made of it, after any number of bytes. -/
structure Device (σ : Type) where
  read : Nat → σ → PicValue × σ
  write : Nat → PicValue → σ → PicValue × σ
  status : σ → Byte
  fault : σ → Option Nat
  cutOff : σ → Nat

namespace Device

variable {σ : Type} (D : Device σ)

def op : Op → σ → PicValue × σ
  | .read reg, s => D.read reg s
  | .write reg v, s => D.write reg v s

def run : List Op → σ → List PicValue × σ
  | [], s => ([], s)
  | o :: os, s =>
      let r := D.op o s
      let q := run os r.2
      (r.1 :: q.1, q.2)

/-- Each value as its two bytes, after one that says nothing of it. -/
def received (status : Byte) (values : List PicValue) (j : Nat) : Byte :=
  match values[j / 3]? with
  | none => 0
  | some v => if j % 3 = 0 then status else if j % 3 = 1 then loByte v else hiByte v

def spi : Spi σ := fun tx s =>
  let r := D.run (opsOf tx) s
  let rx := received (D.status r.2) r.1
  (match D.fault r.2 with
    | some e => ⟨.error (.transfer e), fun j => if j < D.cutOff r.2 then some (rx j) else none⟩
    | none => ⟨.ok (), fun j => some (rx j)⟩, r.2)

@[simp] theorem run_length (os : List Op) (s : σ) : (D.run os s).1.length = os.length := by
  induction os generalizing s with
  | nil => rfl
  | cons o os ih =>
      unfold run
      rw [List.length_cons, ih, List.length_cons]

end Device

theorem opsOf_append {tx tx' : List Byte} (h : tx.length % 3 = 0) :
    opsOf (tx ++ tx') = opsOf tx ++ opsOf tx' := by
  induction tx using opsOf.induct with
  | case1 cmd lo hi rest ih =>
      have hrest : rest.length % 3 = 0 := by
        simp only [List.length_cons] at h
        omega
      rw [List.cons_append, List.cons_append, List.cons_append, opsOf, opsOf, ih hrest,
        List.cons_append]
  | case2 tx hshort =>
      match tx, hshort with
      | [], _ => rfl
      | [_], _ => simp at h
      | [_, _], _ => simp at h
      | cmd :: lo :: hi :: rest, hshort => exact absurd rfl (hshort cmd lo hi rest)

theorem opsOf_range (f : Nat → Byte) (n : Nat) :
    opsOf ((List.range (3 * n)).map f) =
      (List.range n).map fun i => PicTransaction.op ⟨f (3 * i), f (3 * i + 2) ++ f (3 * i + 1)⟩ := by
  induction n with
  | zero => rfl
  | succ n ih =>
      have hrange : (List.range (3 * (n + 1))).map f =
          (List.range (3 * n)).map f ++ [f (3 * n), f (3 * n + 1), f (3 * n + 2)] := by
        rw [Nat.mul_add, List.range_add, List.map_append]
        rfl
      rw [hrange, opsOf_append (by simp), ih, List.range_succ, List.map_append]
      rfl

theorem hiByte_loByte (v : PicValue) : hiByte v ++ loByte v = v := by
  have hv := v.isLt
  unfold hiByte loByte
  apply BitVec.eq_of_toNat_eq
  rw [BitVec.toNat_append, BitVec.toNat_setWidth, BitVec.toNat_setWidth, BitVec.toNat_ushiftRight,
    Nat.shiftRight_eq_div_pow, ← Nat.shiftLeft_add_eq_or_of_lt (Nat.mod_lt _ (by decide)),
    Nat.shiftLeft_eq]
  omega

theorem toNat_bytes (hi lo : Byte) : (hi ++ lo).toNat = hi.toNat * 2 ^ 8 + lo.toNat := by
  rw [BitVec.toNat_append, ← Nat.shiftLeft_add_eq_or_of_lt lo.isLt, Nat.shiftLeft_eq]

theorem loByte_append (hi lo : Byte) : loByte (hi ++ lo) = lo := by
  have hlo := lo.isLt
  apply BitVec.eq_of_toNat_eq
  rw [loByte, BitVec.toNat_setWidth, toNat_bytes]
  omega

theorem hiByte_append (hi lo : Byte) : hiByte (hi ++ lo) = hi := by
  have hhi := hi.isLt
  have hlo := lo.isLt
  apply BitVec.eq_of_toNat_eq
  rw [hiByte, BitVec.toNat_setWidth, BitVec.toNat_ushiftRight, toNat_bytes,
    Nat.shiftRight_eq_div_pow]
  omega

theorem opsOf_bytes (ts : List PicTransaction) :
    opsOf (ts.flatMap PicTransaction.bytes) = ts.map PicTransaction.op := by
  induction ts with
  | nil => rfl
  | cons t ts ih =>
      rw [List.flatMap_cons, PicTransaction.bytes, List.cons_append, List.cons_append,
        List.cons_append, List.nil_append, opsOf, hiByte_loByte, ih, List.map_cons]

theorem op_read {n : Nat} (h : n < 64) (v : PicValue) :
    PicTransaction.op ⟨registerReadCommand (BitVec.ofNat 8 n), v⟩ = .read n := by
  have hn : (BitVec.ofNat 8 n).toNat = n := by
    rw [BitVec.toNat_ofNat, Nat.mod_eq_of_lt (by omega)]
  obtain ⟨hread, hreg⟩ := (read_command_iff (BitVec.ofNat 8 n)).mpr (hn.symm ▸ h)
  unfold PicTransaction.op
  rw [hread, hreg, hn]
  rfl

theorem op_write {n : Nat} (h : n < 64) (v : PicValue) :
    PicTransaction.op ⟨registerWriteCommand (BitVec.ofNat 8 n), v⟩ = .write n v := by
  have hn : (BitVec.ofNat 8 n).toNat = n := by
    rw [BitVec.toNat_ofNat, Nat.mod_eq_of_lt (by omega)]
  obtain ⟨hwrite, hreg⟩ := (write_command_iff (BitVec.ofNat 8 n)).mpr (hn.symm ▸ h)
  unfold PicTransaction.op
  rw [hwrite, hreg, hn]
  rfl

/-- What a reader of the driver can tell: the device, and the values of the last transfer. -/
structure Seen (σ : Type) where
  device : σ
  count : Nat
  value : Nat → PicValue

/-- The `i`th value where the first `k` bytes have come in. -/
def cut (k i : Nat) (new old : PicValue) : PicValue :=
  hiByte (if 3 * i + 2 < k then new else old) ++ loByte (if 3 * i + 1 < k then new else old)

namespace Device

variable {σ : Type} (D : Device σ)

def exchange (os : List Op) (a : Seen σ) : Except Errno Unit × Seen σ :=
  let r := D.run os a.device
  match D.fault r.2 with
  | some e =>
      (.error (.transfer e), ⟨r.2, os.length,
        fun i => cut (D.cutOff r.2) i (r.1[i]?.getD (a.value i)) (a.value i)⟩)
  | none => (.ok (), ⟨r.2, os.length, fun i => r.1[i]?.getD (a.value i)⟩)

theorem exchange_fault {os : List Op} {a : Seen σ} {e : Nat}
    (h : D.fault (D.run os a.device).2 = some e) :
    D.exchange os a = (.error (.transfer e), ⟨(D.run os a.device).2, os.length,
      fun i => cut (D.cutOff (D.run os a.device).2) i ((D.run os a.device).1[i]?.getD (a.value i))
        (a.value i)⟩) := by
  unfold exchange
  simp only [h]

theorem exchange_ok {os : List Op} {a : Seen σ} (h : D.fault (D.run os a.device).2 = none) :
    D.exchange os a = (.ok (), ⟨(D.run os a.device).2, os.length,
      fun i => (D.run os a.device).1[i]?.getD (a.value i)⟩) := by
  unfold exchange
  simp only [h]

theorem exchange_device (os : List Op) (a : Seen σ) :
    (D.exchange os a).2.device = (D.run os a.device).2 := by
  cases hfault : D.fault (D.run os a.device).2 with
  | some e => rw [D.exchange_fault hfault]
  | none => rw [D.exchange_ok hfault]

theorem exchange_values {os : List Op} {a : Seen σ} (h : D.fault (D.run os a.device).2 = none) :
    (List.range (D.exchange os a).2.count).map (D.exchange os a).2.value =
      (D.run os a.device).1 := by
  rw [D.exchange_ok h]
  apply List.ext_getElem
  · rw [List.length_map, List.length_range, D.run_length]
  · intro i _ hi
    rw [List.getElem_map, List.getElem_range]
    simp only [List.getElem?_eq_getElem hi, Option.getD_some]

end Device

section Received

variable {status : Byte} {values : List PicValue} {i : Nat}

theorem received_lo (hi : i < values.length) :
    Device.received status values (3 * i + 1) = loByte values[i] := by
  have hplace : values[(3 * i + 1) / 3]? = some values[i] := by
    rw [show (3 * i + 1) / 3 = i by omega]
    exact List.getElem?_eq_getElem hi
  unfold Device.received
  rw [hplace]
  simp only
  rw [if_neg (by omega), if_pos (by omega)]

theorem received_hi (hi : i < values.length) :
    Device.received status values (3 * i + 2) = hiByte values[i] := by
  have hplace : values[(3 * i + 2) / 3]? = some values[i] := by
    rw [show (3 * i + 2) / 3 = i by omega]
    exact List.getElem?_eq_getElem hi
  unfold Device.received
  rw [hplace]
  simp only
  rw [if_neg (by omega), if_neg (by omega)]

end Received

structure Shows {σ : Type} (d : PicData) (s : σ) (a : Seen σ) : Prop where
  device : a.device = s
  size : d.rxbufSize / 3 = a.count
  value : ∀ i, d.value i = a.value i

variable {σ : Type} {D : Device σ} {self : PicData} {s : σ} {a : Seen σ}

theorem picTransfer_exchange (D : Device σ) (h : Shows self s a) {tx : Pic} {n : Nat} {os : List Op}
    (hos : opsOf ((List.range (3 * n)).map tx.txbuf) = os) (hn : os.length = n) :
    ∃ d : PicData, self.picTransfer D.spi tx (3 * n) s =
        ((D.exchange os a).1, d, (D.exchange os a).2.device) ∧
      Shows d (D.exchange os a).2.device (D.exchange os a).2 := by
  obtain ⟨hdevice, hsize, hvalue⟩ := h
  subst hdevice
  have hlength : (D.run os a.device).1.length = n := (D.run_length os a.device).trans hn
  have hcount : 3 * n / 3 = os.length := by
    rw [hn]
    exact Nat.mul_div_cancel_left n (by decide)
  unfold PicData.picTransfer Device.spi Device.exchange
  rw [hos]
  cases hfault : D.fault (D.run os a.device).2 with
  | some e =>
      simp only [hfault]
      refine ⟨_, rfl, rfl, hcount, fun i => ?_⟩
      have hlo : loByte (a.value i) = self.rxbuf (3 * i + 1) := hvalue i ▸ loByte_append _ _
      have hhi : hiByte (a.value i) = self.rxbuf (3 * i + 2) := hvalue i ▸ hiByte_append _ _
      unfold PicData.value cut
      simp only
      by_cases hi : i < n
      · have hin : i < (D.run os a.device).1.length := hlength.symm ▸ hi
        rw [if_pos (show 3 * i + 2 < 3 * n by omega), if_pos (show 3 * i + 1 < 3 * n by omega),
          received_lo hin, received_hi hin, List.getElem?_eq_getElem hin, Option.getD_some]
        congr 1
        · by_cases hcut : 3 * i + 2 < D.cutOff (D.run os a.device).2
          · rw [if_pos hcut, if_pos hcut, Option.getD_some]
          · rw [if_neg hcut, if_neg hcut, hhi, Option.getD_none]
        · by_cases hcut : 3 * i + 1 < D.cutOff (D.run os a.device).2
          · rw [if_pos hcut, if_pos hcut, Option.getD_some]
          · rw [if_neg hcut, if_neg hcut, hlo, Option.getD_none]
      · rw [if_neg (show ¬3 * i + 2 < 3 * n by omega), if_neg (show ¬3 * i + 1 < 3 * n by omega),
          List.getElem?_eq_none (by omega), Option.getD_none, ite_self, ite_self, hlo, hhi]
  | none =>
      simp only [hfault]
      refine ⟨_, rfl, rfl, hcount, fun i => ?_⟩
      unfold PicData.value
      simp only
      by_cases hi : i < n
      · have hin : i < (D.run os a.device).1.length := hlength.symm ▸ hi
        rw [if_pos (by omega), if_pos (by omega), received_lo hin, received_hi hin,
          Option.getD_some, Option.getD_some, hiByte_loByte, List.getElem?_eq_getElem hin]
        rfl
      · rw [if_neg (by omega), if_neg (by omega), List.getElem?_eq_none (by omega)]
        exact hvalue i

/-! The calls. -/

inductive PicCall where
  | readOneRegister (reg : PicRegister)
  | writeOneRegister (reg : PicRegister) (newValue : PicValue)
  | readRegisterRange (firstReg lastReg : PicRegister)
  | writeRegisterRange (firstReg lastReg : PicRegister) (buf : List Byte)
  | writeData (buf : List Byte)
  deriving DecidableEq, Repr

namespace PicCall

def run (spi : Spi σ) (self : PicData) (s : σ) :
    PicCall → Except Errno (List PicValue) × PicData × σ
  | .readOneRegister reg =>
      let r := self.picReadOneRegister spi reg s
      (r.1.map fun v => [v], r.2)
  | .writeOneRegister reg newValue =>
      let r := self.picWriteOneRegister spi reg newValue s
      (r.1.map fun _ => [], r.2)
  | .readRegisterRange firstReg lastReg => self.picReadRegisterRange spi firstReg lastReg s
  | .writeRegisterRange firstReg lastReg buf =>
      let r := self.picWriteRegisterRange spi firstReg lastReg buf s
      (r.1.map fun _ => [], r.2)
  | .writeData buf =>
      let r := self.picWriteData spi buf s
      (r.1.map fun _ => [], r.2)

def numRegs (firstReg lastReg : PicRegister) : Nat := lastReg.ctorIdx - firstReg.ctorIdx + 1

def refused : PicCall → Option Errno
  | .readOneRegister _ | .writeOneRegister _ _ => none
  | .readRegisterRange firstReg lastReg =>
      if firstReg.ctorIdx > lastReg.ctorIdx then some .EINVAL else none
  | .writeRegisterRange firstReg lastReg buf =>
      if firstReg.ctorIdx > lastReg.ctorIdx ∨ buf.length ≠ 2 * numRegs firstReg lastReg then
        some .EINVAL
      else none
  | .writeData buf =>
      if buf.length % 3 ≠ 0 then some .EINVAL
      else if buf.length > maxRegistersPerTransfer * 3 then some .E2BIG
      else none

def ops : PicCall → List Op
  | .readOneRegister reg => [.read reg.ctorIdx]
  | .writeOneRegister reg newValue => [.write reg.ctorIdx newValue, .read reg.ctorIdx]
  | .readRegisterRange firstReg lastReg =>
      (List.range (numRegs firstReg lastReg)).map fun i => .read (firstReg.ctorIdx + i)
  | .writeRegisterRange firstReg lastReg buf =>
      (valuesOf buf).mapIdx (fun i v => .write (firstReg.ctorIdx + i) v) ++
        (List.range (numRegs firstReg lastReg)).map fun i => .read (firstReg.ctorIdx + i)
  | .writeData buf => opsOf buf

def result (value : Nat → PicValue) : PicCall → Except Errno (List PicValue)
  | .readOneRegister _ => .ok [value 0]
  | .writeOneRegister _ newValue => if newValue = value 1 then .ok [] else .error Errno.EIO
  | .readRegisterRange firstReg lastReg =>
      .ok ((List.range (numRegs firstReg lastReg)).map value)
  | .writeRegisterRange firstReg lastReg buf =>
      if valuesOf buf = (List.range (numRegs firstReg lastReg)).map fun i =>
          value (numRegs firstReg lastReg + i) then .ok []
      else .error Errno.EIO
  | .writeData _ => .ok []

/-- The call as it is to a reader who knows nothing of buffers. -/
def meaning (D : Device σ) (call : PicCall) (a : Seen σ) : Except Errno (List PicValue) × Seen σ :=
  match call.refused with
  | some e => (.error e, a)
  | none =>
      let r := D.exchange call.ops a
      (r.1.bind fun _ => call.result r.2.value, r.2)

end PicCall

theorem PicRegister.ctorIdx_lt (reg : PicRegister) : reg.ctorIdx < picNumRegisters := by
  cases reg <;> decide

namespace Pic

theorem op_loadReads (tx : Pic) {skip n firstReg i : Nat} (hi : skip ≤ i ∧ i < skip + n)
    (hreg : firstReg + (i - skip) < 64) (v : PicValue) :
    PicTransaction.op ⟨(tx.loadReads skip n firstReg).txbuf (3 * i), v⟩ =
      .read (firstReg + (i - skip)) := by
  have hcmd : (tx.loadReads skip n firstReg).txbuf (3 * i) =
      registerReadCommand (BitVec.ofNat 8 (firstReg + (i - skip))) := by
    simp only [loadReads, Nat.mul_div_cancel_left i (Nat.zero_lt_succ 2)]
    rw [if_pos ⟨hi.1, hi.2, Nat.mul_mod_right 3 i⟩]
  rw [hcmd]
  exact op_read hreg v

theorem loadReads_before (tx : Pic) {skip i : Nat} (hi : i < skip) (n firstReg : Nat) {k : Nat}
    (hk : k < 3) : (tx.loadReads skip n firstReg).txbuf (3 * i + k) = tx.txbuf (3 * i + k) := by
  unfold loadReads
  exact if_neg (by omega)

theorem loadReads_zero (tx : Pic) {skip i n firstReg : Nat} (hi : i < skip) :
    (tx.loadReads skip n firstReg).txbuf (3 * i) = tx.txbuf (3 * i + 0) :=
  tx.loadReads_before hi n firstReg (Nat.zero_lt_succ 2)

theorem op_loadWrites (tx : Pic) {firstReg i : Nat} {values : List PicValue} (hi : i < values.length)
    (hreg : firstReg + i < 64) :
    PicTransaction.op ⟨(tx.loadWrites firstReg values).txbuf (3 * i + 0),
        (tx.loadWrites firstReg values).txbuf (3 * i + 2) ++
          (tx.loadWrites firstReg values).txbuf (3 * i + 1)⟩ =
      .write (firstReg + i) values[i] := by
  have hbyte (k : Nat) (hk : k < 3) : (tx.loadWrites firstReg values).txbuf (3 * i + k) =
      if k = 0 then registerWriteCommand (BitVec.ofNat 8 (firstReg + i))
      else if k = 1 then loByte values[i] else hiByte values[i] := by
    have hdiv : (3 * i + k) / 3 = i := by omega
    have hmod : (3 * i + k) % 3 = k := by omega
    simp only [loadWrites, hdiv, hmod, List.getElem?_eq_getElem hi]
  rw [hbyte 0 (by decide), hbyte 1 (by decide), hbyte 2 (by decide)]
  simp only [if_true, Nat.succ_ne_zero, if_false, Nat.reduceEqDiff, hiByte_loByte]
  exact op_write hreg _

theorem opsOf_loadReads (tx : Pic) {n firstReg : Nat} (hregs : firstReg + n ≤ 64) :
    opsOf ((List.range (3 * n)).map (tx.loadReads 0 n firstReg).txbuf) =
      (List.range n).map fun i => .read (firstReg + i) := by
  rw [opsOf_range]
  apply List.map_congr_left
  intro i hi
  have hi := List.mem_range.mp hi
  exact op_loadReads tx ⟨Nat.zero_le i, by omega⟩ (by omega) _

theorem opsOf_loadWrites (tx : Pic) {n firstReg : Nat} {values : List PicValue}
    (hregs : firstReg + n ≤ 64) (hvalues : values.length = n) :
    opsOf ((List.range (3 * (n + n))).map
        ((tx.loadWrites firstReg values).loadReads n n firstReg).txbuf) =
      values.mapIdx (fun i v => .write (firstReg + i) v) ++
        (List.range n).map fun i => .read (firstReg + i) := by
  rw [opsOf_range, List.range_add, List.map_append, List.map_map]
  congr 1
  · apply List.ext_getElem
    · rw [List.length_map, List.length_range, List.length_mapIdx, hvalues]
    · intro i hi hi'
      rw [List.length_map, List.length_range] at hi
      rw [List.getElem_map, List.getElem_range, List.getElem_mapIdx,
        ← op_loadWrites tx (by omega) (by omega), loadReads_before _ hi n firstReg (by decide),
        loadReads_before _ hi n firstReg (by decide), loadReads_zero _ hi]
  · apply List.map_congr_left
    intro i hi
    have hi := List.mem_range.mp hi
    rw [Function.comp_apply, op_loadReads _ ⟨by omega, by omega⟩ (by omega), Nat.add_sub_cancel_left]

theorem opsOf_loadOne (tx : Pic) (reg : PicRegister) (newValue : PicValue) :
    opsOf ((List.range (3 * 2)).map (tx.loadOne reg.number newValue).txbuf) =
      [.write reg.ctorIdx newValue, .read reg.ctorIdx] := by
  have hreg : reg.ctorIdx < 64 := Nat.lt_trans reg.ctorIdx_lt (by decide)
  have hwrite := op_write hreg newValue
  have hread := op_read hreg (tx.txbuf 5 ++ tx.txbuf 4)
  rw [opsOf_range]
  change [PicTransaction.op ⟨_, hiByte newValue ++ loByte newValue⟩, _] = _
  rw [hiByte_loByte]
  exact congrArg₂ (fun a b => [a, b]) hwrite hread

theorem range_load (tx : Pic) (buf : List Byte) :
    (List.range buf.length).map (tx.load buf).txbuf = buf := by
  have htransmit := transmit_load tx buf
  unfold transmit at htransmit
  exact Obs.spiSyncTransfer.inj (List.cons.inj htransmit).1

end Pic

theorem valuesOf_length : ∀ {buf : List Byte} {n : Nat}, buf.length = 2 * n →
    (valuesOf buf).length = n
  | [], n, h => by
      simp only [List.length_nil] at h
      simp only [valuesOf, List.length_nil]
      omega
  | [_], n, h => by
      simp only [List.length_singleton] at h
      omega
  | lo :: hi :: rest, n, h => by
      have hrest : rest.length = 2 * (n - 1) := by
        simp only [List.length_cons] at h
        omega
      simp only [List.length_cons] at h
      rw [valuesOf, List.length_cons, valuesOf_length hrest]
      omega

theorem opsOf_length {buf : List Byte} {n : Nat} (h : buf.length = 3 * n) :
    (opsOf buf).length = n := by
  have hbuf : buf = (List.range (3 * n)).map (Pic.load ⟨fun _ => 0⟩ buf).txbuf := by
    rw [← h, Pic.range_load]
  rw [hbuf, opsOf_range, List.length_map, List.length_range]

theorem picWriteData_exchange (D : Device σ) (h : Shows self s a) (buf : List Byte)
    (hthree : buf.length % 3 = 0) (hfits : buf.length ≤ maxRegistersPerTransfer * 3) :
    ∃ d : PicData, self.picWriteData D.spi buf s =
        ((D.exchange (opsOf buf) a).1, d, (D.exchange (opsOf buf) a).2.device) ∧
      Shows d (D.exchange (opsOf buf) a).2.device (D.exchange (opsOf buf) a).2 := by
  have hlength : 3 * (buf.length / 3) = buf.length := by omega
  have hops : opsOf ((List.range (3 * (buf.length / 3))).map (self.tx.load buf).txbuf) =
      opsOf buf := by
    rw [hlength, Pic.range_load]
  obtain ⟨d, htransfer, hshows⟩ := picTransfer_exchange D h hops (opsOf_length hlength.symm)
  refine ⟨d, ?_, hshows⟩
  rw [hlength] at htransfer
  rw [PicData.picWriteData, if_neg (not_not.mpr hthree), if_neg (Nat.not_lt.mpr hfits), htransfer]

theorem bind_check_map {α β : Type} (x : Except Errno Unit) (p : Prop) [Decidable p] (u : α) (v : β) :
    (x.bind fun _ => if p then .ok u else .error Errno.EIO).map (fun _ => v) =
      x.bind fun _ => if p then .ok v else .error Errno.EIO := by
  cases x with
  | error e => rfl
  | ok _ =>
      by_cases hp : p
      · simp only [Except.bind, if_pos hp, Except.map]
      · simp only [Except.bind, if_neg hp, Except.map]

namespace PicCall

theorem range_le {firstReg lastReg : PicRegister} (hle : ¬firstReg.ctorIdx > lastReg.ctorIdx) :
    firstReg.ctorIdx + numRegs firstReg lastReg ≤ 64 := by
  have hlast : lastReg.ctorIdx < 64 := Nat.lt_trans lastReg.ctorIdx_lt (by decide)
  unfold numRegs
  omega

theorem meaning_refused (D : Device σ) (h : Shows self s a) {call : PicCall} {e : Errno}
    (he : call.refused = some e) (hrun : call.run D.spi self s = (.error e, self, s)) :
    ∃ d : PicData, call.run D.spi self s = ((call.meaning D a).1, d, (call.meaning D a).2.device) ∧
      Shows d (call.meaning D a).2.device (call.meaning D a).2 := by
  have hmeaning : call.meaning D a = (.error e, a) := by
    unfold meaning
    rw [he]
  rw [hmeaning, h.device]
  exact ⟨self, hrun, h⟩

theorem run_eq (D : Device σ) (h : Shows self s a) (call : PicCall) :
    ∃ d : PicData, call.run D.spi self s = ((call.meaning D a).1, d, (call.meaning D a).2.device) ∧
      Shows d (call.meaning D a).2.device (call.meaning D a).2 := by
  have hfits (reg : PicRegister) : reg.ctorIdx + 1 ≤ 64 := Nat.le_trans reg.ctorIdx_lt (by decide)
  cases call with
  | readOneRegister reg =>
      have hops : opsOf _ = [.read reg.ctorIdx] := Pic.opsOf_loadReads self.tx (hfits reg)
      obtain ⟨d, htransfer, hshows⟩ := picTransfer_exchange D h hops rfl
      have hvalue : d.value = (D.exchange _ a).2.value := funext hshows.value
      refine ⟨d, ?_, hshows⟩
      rw [run, PicData.picReadOneRegister, htransfer]
      simp only [meaning, refused, ops, result, hvalue]
      cases (D.exchange [.read reg.ctorIdx] a).1 <;> rfl
  | writeOneRegister reg newValue =>
      have hops := Pic.opsOf_loadOne self.tx reg newValue
      obtain ⟨d, htransfer, hshows⟩ := picTransfer_exchange D h hops rfl
      have hvalue : d.value = (D.exchange _ a).2.value := funext hshows.value
      refine ⟨d, ?_, hshows⟩
      rw [run, PicData.picWriteOneRegister, htransfer]
      simp only [meaning, refused, ops, result, hvalue, bind_check_map]
      rfl
  | readRegisterRange firstReg lastReg =>
      by_cases hle : firstReg.ctorIdx > lastReg.ctorIdx
      · exact meaning_refused D h (if_pos hle) (if_pos hle)
      · have hops := Pic.opsOf_loadReads self.tx (range_le hle)
        obtain ⟨d, htransfer, hshows⟩ := picTransfer_exchange D h hops (by simp)
        have hvalue : d.value = (D.exchange _ a).2.value := funext hshows.value
        simp only [meaning, refused, ops, if_neg hle]
        refine ⟨d, ?_, hshows⟩
        unfold numRegs at htransfer
        simp only [run, PicData.picReadRegisterRange, if_neg hle, htransfer, result, hvalue]
        unfold numRegs
        cases (D.exchange _ a).1 <;> rfl
  | writeRegisterRange firstReg lastReg buf =>
      by_cases hrefused : firstReg.ctorIdx > lastReg.ctorIdx ∨
          buf.length ≠ 2 * numRegs firstReg lastReg
      · have hrun : PicData.picWriteRegisterRange D.spi firstReg lastReg buf self s =
            (.error .EINVAL, self, s) := by
          unfold PicData.picWriteRegisterRange
          split
          · rfl
          · next hle => exact if_pos (hrefused.resolve_left hle)
        exact meaning_refused D h (if_pos hrefused) (by rw [run, hrun]; rfl)
      · obtain ⟨hle, hlength⟩ := not_or.mp hrefused
        have hlength := not_not.mp hlength
        have hops := Pic.opsOf_loadWrites self.tx (range_le hle) (valuesOf_length hlength)
        obtain ⟨d, htransfer, hshows⟩ := picTransfer_exchange D h hops (by
          simp [valuesOf_length hlength])
        have hvalue : d.value = (D.exchange _ a).2.value := funext hshows.value
        simp only [meaning, refused, ops, if_neg hrefused]
        refine ⟨d, ?_, hshows⟩
        have hlen : 3 * (numRegs firstReg lastReg + numRegs firstReg lastReg) =
            3 * numRegs firstReg lastReg * 2 := by omega
        rw [hlen] at htransfer
        unfold numRegs at htransfer hlength
        simp only [run, PicData.picWriteRegisterRange, if_neg hle, if_neg (not_not.mpr hlength),
          htransfer, result, hvalue, bind_check_map]
        rfl
  | writeData buf =>
      by_cases hthree : buf.length % 3 ≠ 0
      · exact meaning_refused D h (if_pos hthree) (by
          rw [run, PicData.picWriteData, if_pos hthree]
          rfl)
      · by_cases hbig : buf.length > maxRegistersPerTransfer * 3
        · refine meaning_refused D h (e := .E2BIG) ?_ ?_
          · rw [refused, if_neg hthree, if_pos hbig]
          · rw [run, PicData.picWriteData, if_neg hthree, if_pos hbig]
            rfl
        · obtain ⟨d, hwrite, hshows⟩ := picWriteData_exchange D h buf (not_not.mp hthree)
            (Nat.not_lt.mp hbig)
          simp only [meaning, refused, ops, if_neg hthree, if_neg hbig]
          refine ⟨d, ?_, hshows⟩
          simp only [run, hwrite, result]
          cases (D.exchange (opsOf buf) a).1 <;> rfl

/-- Calls one after the other: the driver's lock keeps each of them whole. -/
def runs (spi : Spi σ) :
    List PicCall → PicData → σ → List (Except Errno (List PicValue)) × PicData × σ
  | [], self, s => ([], self, s)
  | call :: calls, self, s =>
      let r := call.run spi self s
      let q := runs spi calls r.2.1 r.2.2
      (r.1 :: q.1, q.2)

def meanings (D : Device σ) : List PicCall → Seen σ → List (Except Errno (List PicValue)) × Seen σ
  | [], a => ([], a)
  | call :: calls, a =>
      let r := call.meaning D a
      let q := meanings D calls r.2
      (r.1 :: q.1, q.2)

theorem runs_append (spi : Spi σ) (calls more : List PicCall) (self : PicData) (s : σ) :
    runs spi (calls ++ more) self s =
      let r := runs spi calls self s
      let q := runs spi more r.2.1 r.2.2
      (r.1 ++ q.1, q.2) := by
  induction calls generalizing self s with
  | nil => rfl
  | cons call calls ih =>
      rw [List.cons_append, runs, ih]
      rfl

theorem meanings_append (D : Device σ) (calls more : List PicCall) (a : Seen σ) :
    meanings D (calls ++ more) a =
      let r := meanings D calls a
      let q := meanings D more r.2
      (r.1 ++ q.1, q.2) := by
  induction calls generalizing a with
  | nil => rfl
  | cons call calls ih =>
      rw [List.cons_append, meanings, ih]
      rfl

theorem runs_eq (D : Device σ) (h : Shows self s a) (calls : List PicCall) :
    ∃ d : PicData, runs D.spi calls self s =
        ((meanings D calls a).1, d, (meanings D calls a).2.device) ∧
      Shows d (meanings D calls a).2.device (meanings D calls a).2 := by
  induction calls generalizing self s a with
  | nil => exact ⟨self, by rw [runs, meanings, h.device], h.device ▸ h⟩
  | cons call calls ih =>
      obtain ⟨d, hcall, hshows⟩ := call.run_eq D h
      obtain ⟨d', hcalls, hshows'⟩ := ih hshows
      refine ⟨d', ?_, hshows'⟩
      rw [runs, hcall, meanings]
      simp only
      rw [hcalls]

end PicCall

def PicData.seen (self : PicData) (s : σ) : Seen σ := ⟨s, self.rxbufSize / 3, self.value⟩

theorem PicData.shows_seen (self : PicData) (s : σ) : Shows self s (self.seen s) :=
  ⟨rfl, rfl, fun _ => rfl⟩

def Seen.hexText (a : Seen σ) : List Char := PicData.hexText ((List.range a.count).map a.value)

theorem Shows.hexShow (h : Shows self s a) : self.hexShow = a.hexText := by
  unfold PicData.hexShow Seen.hexText
  rw [h.size, funext h.value]

/-- Whatever the calls, and whatever is left in the buffers: they answer as the operations on
the device do, leave the device as these leave it, and the attribute shows their values. -/
theorem calls_refine (D : Device σ) (calls : List PicCall) (self : PicData) (s : σ) :
    let r := PicCall.runs D.spi calls self s
    let q := PicCall.meanings D calls (self.seen s)
    r.1 = q.1 ∧ r.2.2 = q.2.device ∧ r.2.1.hexShow = q.2.hexText := by
  obtain ⟨d, hruns, hshows⟩ := PicCall.runs_eq D (self.shows_seen s) calls
  rw [hruns]
  exact ⟨rfl, rfl, hshows.hexShow⟩

end Glowforge.Bus
