import Glowforge.Bus.RegisterFile

/-! The attributes of the PIC (`pic_api.c`) on the driver's buffers: what is written to them
as text is carried out, and what is read from them as text is what came back. -/
namespace Glowforge.Bus
open Foundation

namespace PicData

section Calls

variable {σ : Type} (spi : Spi σ)

def hexStore (buf : List Char) (self : PicData) (s : σ) : Except Errno Nat × PicData × σ :=
  if buf.length = 0 then (.ok 0, self, s)
  else if buf.length ≥ pageSize then (.error .E2BIG, self, s)
  else if 1 + buf.count ',' > maxRegistersPerTransfer then (.error .E2BIG, self, s)
  else
    match scanFields (1 + buf.count ',') (some (cString buf)) with
    | .error e => (.error e, self, s)
    | .ok raw =>
        let r := self.picWriteData spi (raw.flatMap PicTransaction.bytes) s
        (r.1.map fun _ => buf.length, r.2)

def picReadRegisterAscii (reg : PicRegister) (self : PicData) (s : σ) :
    Except Errno (List Char) × PicData × σ :=
  let r := self.picReadOneRegister spi reg s
  (r.1.map fun value => Printf.decimal value.toNat ++ ['\n'], r.2)

def picWriteRegisterAscii (reg : PicRegister) (buf : List Char) (self : PicData) (s : σ) :
    Except Errno Nat × PicData × σ :=
  if buf.length ≥ pageSize then (.error .E2BIG, self, s)
  else
    match scanHu buf with
    | none => (.error .EINVAL, self, s)
    | some newValue =>
        if newValue.toNat > 0x03ff then (.error .EINVAL, self, s)
        else
          let r := self.picWriteOneRegister spi reg newValue s
          (r.1.map fun _ => buf.length, r.2)

end Calls

end PicData

/-- A bus that only keeps what is sent to it, and has one answer. -/
def recorder (answer : Answer) : Spi (List Obs) := fun tx sent =>
  (⟨answer.map fun _ => (), fun i => (answer.toOption.map fun rx => rx i)⟩,
    sent ++ [.spiSyncTransfer tx])

section Recorder

variable (self : PicData) (answer : Answer) (sent : List Obs)

theorem picWriteData_recorder (buf : List Byte) :
    let r := self.picWriteData (recorder answer) buf sent
    r.1 = (self.tx.picWriteData buf answer).2 ∧
      r.2.2 = sent ++ (self.tx.picWriteData buf answer).1 := by
  unfold PicData.picWriteData Pic.picWriteData
  by_cases hthree : buf.length % 3 ≠ 0
  · rw [if_pos hthree, if_pos hthree]
    exact ⟨rfl, (List.append_nil sent).symm⟩
  · rw [if_neg hthree, if_neg hthree]
    by_cases hbig : buf.length > maxRegistersPerTransfer * 3
    · rw [if_pos hbig, if_pos hbig]
      exact ⟨rfl, (List.append_nil sent).symm⟩
    · rw [if_neg hbig, if_neg hbig]
      cases answer <;> exact ⟨rfl, rfl⟩

theorem picWriteOneRegister_recorder (reg : PicRegister) (newValue : PicValue) :
    let r := self.picWriteOneRegister (recorder answer) reg newValue sent
    r.1 = (self.tx.picWriteOneRegister reg.number newValue answer).2 ∧
      r.2.2 = sent ++ (self.tx.picWriteOneRegister reg.number newValue answer).1 := by
  cases answer with
  | error e => exact ⟨rfl, rfl⟩
  | ok rx =>
      refine ⟨?_, rfl⟩
      have hsame : newValue = rx 5 ++ rx 4 ↔ loByte newValue = rx 4 ∧ hiByte newValue = rx 5 := by
        constructor
        · rintro rfl
          exact ⟨loByte_append _ _, hiByte_append _ _⟩
        · rintro ⟨hlo, hhi⟩
          rw [← hlo, ← hhi, hiByte_loByte]
      exact if_congr hsame rfl rfl

theorem hexStore_recorder (buf : List Char) :
    let r := self.hexStore (recorder answer) buf sent
    r.1 = (Bus.hexStore self.tx answer buf).2 ∧
      r.2.2 = sent ++ (Bus.hexStore self.tx answer buf).1 := by
  unfold PicData.hexStore Bus.hexStore
  by_cases hempty : buf.length = 0
  · rw [if_pos hempty, if_pos hempty]
    exact ⟨rfl, (List.append_nil sent).symm⟩
  rw [if_neg hempty, if_neg hempty]
  by_cases hlong : buf.length ≥ pageSize
  · rw [if_pos hlong, if_pos hlong]
    exact ⟨rfl, (List.append_nil sent).symm⟩
  rw [if_neg hlong, if_neg hlong]
  by_cases hmany : 1 + buf.count ',' > maxRegistersPerTransfer
  · rw [if_pos hmany, if_pos hmany]
    exact ⟨rfl, (List.append_nil sent).symm⟩
  rw [if_neg hmany, if_neg hmany]
  cases scanFields (1 + buf.count ',') (some (cString buf)) with
  | error e => exact ⟨rfl, (List.append_nil sent).symm⟩
  | ok raw =>
      obtain ⟨hresult, hsent⟩ := picWriteData_recorder self answer sent
        (raw.flatMap PicTransaction.bytes)
      exact ⟨congrArg (Except.map fun _ => buf.length) hresult, hsent⟩

end Recorder

/-! The text. -/

namespace PicData

theorem hex4_length (v : PicValue) : (hex4 v).length = 4 := Printf.padded_length 16 4 v.toNat

theorem hex4_inj {v w : PicValue} (h : hex4 v = hex4 w) : v = w :=
  BitVec.eq_of_toNat_eq (Printf.padded_inj le_rfl (by decide) v.isLt w.isLt h)

theorem hexText_cons (v w : PicValue) (rest : List PicValue) :
    hexText (v :: w :: rest) = hex4 v ++ ',' :: hexText (w :: rest) := by
  unfold hexText
  rw [List.map_cons, List.map_cons, List.intersperse_cons_cons, List.flatten_cons, List.flatten_cons,
    List.append_assoc]
  rfl

theorem hexText_single (v : PicValue) : hexText [v] = hex4 v ++ ['\n'] := by
  unfold hexText
  rw [List.map_singleton, List.intersperse_singleton, List.flatten_singleton]

theorem hexText_length (v : PicValue) (rest : List PicValue) :
    (hexText (v :: rest)).length = 5 * (rest.length + 1) := by
  induction rest generalizing v with
  | nil =>
      rw [hexText_single, List.length_append, hex4_length]
      rfl
  | cons w rest ih =>
      rw [hexText_cons, List.length_append, List.length_cons, ih, hex4_length, List.length_cons]
      omega

theorem hexText_nil_length : (hexText []).length = 1 := rfl

theorem hexText_inj {values others : List PicValue} (h : hexText values = hexText others) :
    values = others := by
  have hcount := congrArg List.length h
  induction values generalizing others with
  | nil =>
      cases others with
      | nil => rfl
      | cons w others =>
          rw [hexText_length, hexText_nil_length] at hcount
          omega
  | cons v values ih =>
      cases others with
      | nil =>
          rw [hexText_length, hexText_nil_length] at hcount
          omega
      | cons w others =>
          rw [hexText_length, hexText_length] at hcount
          cases values with
          | nil =>
              have hnil : others = [] := List.eq_nil_of_length_eq_zero (by
                rw [List.length_nil] at hcount
                omega)
              subst hnil
              rw [hexText_single, hexText_single] at h
              rw [hex4_inj (List.append_cancel_right h)]
          | cons v' values =>
              obtain ⟨w', others, rfl⟩ := List.exists_cons_of_length_pos (l := others) (by
                rw [List.length_cons] at hcount
                omega)
              rw [hexText_cons, hexText_cons] at h
              obtain ⟨hfirst, hrest⟩ := List.append_inj h (by rw [hex4_length, hex4_length])
              have hrest := (List.cons.inj hrest).2
              rw [hex4_inj hfirst, ih hrest (congrArg List.length hrest)]

end PicData

/-! A list through the hex attribute: the operations it asks for are carried out in order, and
the values that come back are read from the same attribute. -/

variable {σ : Type}

def HexField.op (f : HexField) : Op :=
  match f.value with
  | none => .read f.number
  | some v => .write f.number (BitVec.ofNat 16 (Scanf.denote 16 v))

theorem HexField.op_transaction (f : HexField) (h : f.number < 64) :
    (transaction f.scanned).op = f.op := by
  unfold transaction HexField.scanned HexField.op
  cases f.value with
  | none => exact op_read h _
  | some v => exact op_write h _

def HexList.ops (l : HexList) : List Op := l.fields.map HexField.op

theorem HexList.opsOf_transactions (l : HexList) (h : ∀ f ∈ l.fields, f.number < 64) :
    opsOf (l.transactions.flatMap PicTransaction.bytes) = l.ops := by
  unfold HexList.transactions HexList.ops
  rw [opsOf_bytes, List.map_map]
  exact List.map_congr_left fun f hf => f.op_transaction (h f hf)

theorem HexList.hexStore_eq (l : HexList) (spi : Spi σ) (self : PicData) (s : σ) :
    self.hexStore spi l.chars s =
      let r := self.picWriteData spi (l.transactions.flatMap PicTransaction.bytes) s
      (r.1.map fun _ => l.chars.length, r.2) := by
  have hshort : l.fields.length ≤ maxRegistersPerTransfer := l.short
  have hmax : maxRegistersPerTransfer = 34 := rfl
  have hlength := l.chars_length
  have hscan : scanFields l.fields.length (some l.chars) = .ok l.transactions :=
    scanFields_chars l.first l.rest
  unfold PicData.hexStore
  rw [if_neg (by omega), if_neg (by unfold pageSize; omega), l.count_comma,
    if_neg (Nat.not_lt.mpr hshort), l.cString_chars, hscan]

/-- A list of registers below 64 written to the attribute is its operations, one after the
other. If the transfer fails the write says so; and if not, the attribute reads as the values
that came back and as no other values. -/
theorem hex_answers (D : Device σ) (l : HexList) (h : ∀ f ∈ l.fields, f.number < 64)
    (self : PicData) (s : σ) :
    let r := self.hexStore D.spi l.chars s
    let q := D.run l.ops s
    r.2.2 = q.2 ∧
      match D.fault q.2 with
      | some e => r.1 = .error (.transfer e)
      | none => r.1 = .ok l.chars.length ∧
          ∀ values, r.2.1.hexShow = PicData.hexText values ↔ values = q.1 := by
  have hshort : l.fields.length ≤ maxRegistersPerTransfer := l.short
  have hbytes := HexList.bytes_length l.transactions
  have hcount : l.transactions.length = l.fields.length := List.length_map _
  obtain ⟨d, hwrite, hshows⟩ := picWriteData_exchange D (self.shows_seen s)
    (l.transactions.flatMap PicTransaction.bytes) (by omega) (by omega)
  rw [l.opsOf_transactions h] at hwrite hshows
  rw [l.hexStore_eq, hwrite]
  refine ⟨D.exchange_device l.ops (self.seen s), ?_⟩
  cases hfault : D.fault (D.run l.ops s).2 with
  | some e =>
      simp only
      rw [D.exchange_fault hfault]
      rfl
  | none =>
      have hshown : d.hexShow = PicData.hexText (D.run l.ops s).1 := by
        rw [hshows.hexShow, Seen.hexText, D.exchange_values hfault]
        rfl
      simp only
      rw [hshown, D.exchange_ok hfault]
      refine ⟨rfl, fun values => ⟨fun hsame => (PicData.hexText_inj hsame).symm, ?_⟩⟩
      rintro rfl
      rfl

/-! A field that reads has no value, so its two conditions on the value hold of it. -/

theorem length_of_no_value : ∀ v ∈ (none : Option (List Char)), 1 ≤ v.length ∧ v.length ≤ 4 := by
  rintro v hv
  contradiction

theorem digits_of_no_value :
    ∀ v ∈ (none : Option (List Char)), ∀ c ∈ v, Scanf.isDigit 16 c = true := by
  rintro v hv
  contradiction

/-- One write and one read, through buffers that hold something else. -/
def writeLidAndRead : HexList where
  first :=
    { reg := ['b'], value := some ['2', 'a'], reg_length := by decide
      reg_digits := List.all_eq_true.mp (by decide)
      value_length := fun v hv => by
        cases Option.some.inj hv
        decide
      value_digits := fun v hv => by
        cases Option.some.inj hv
        exact List.all_eq_true.mp (by decide) }
  rest :=
    [{ reg := ['0', 'B'], value := none, reg_length := by decide
       reg_digits := List.all_eq_true.mp (by decide)
       value_length := length_of_no_value
       value_digits := digits_of_no_value }]
  short := by decide

theorem hex_answers_lid :
    ((⟨⟨fun _ => 0xff⟩, fun _ => 0xff, 9⟩ : PicData).hexStore outputBank.spi
      writeLidAndRead.chars (fun _ => 7)).2.1.hexShow = PicData.hexText [7, 42] :=
  ((hex_answers outputBank writeLidAndRead (by
    intro f hf
    rcases List.mem_pair.mp hf with rfl | rfl <;> decide)
    ⟨⟨fun _ => 0xff⟩, fun _ => 0xff, 9⟩ (fun _ => 7)).2.2 [7, 42]).mpr rfl

/-! A number through the attribute of its register. -/

theorem picWriteRegisterAscii_ok {spi : Spi σ} {reg : PicRegister} {buf : List Char}
    {self : PicData} {s : σ} {count : Nat}
    (h : (self.picWriteRegisterAscii spi reg buf s).1 = .ok count) :
    ∃ v, scanHu buf = some v ∧ ((PicCall.writeOneRegister reg v).run spi self s).1 = .ok [] ∧
      (self.picWriteRegisterAscii spi reg buf s).2 =
        ((PicCall.writeOneRegister reg v).run spi self s).2 := by
  unfold PicData.picWriteRegisterAscii at h ⊢
  by_cases hlong : buf.length ≥ pageSize
  · rw [if_pos hlong] at h
    contradiction
  rw [if_neg hlong] at h ⊢
  cases hscan : scanHu buf with
  | none =>
      rw [hscan] at h
      contradiction
  | some v =>
      rw [hscan] at h
      simp only at h ⊢
      by_cases hrange : v.toNat > 0x03ff
      · rw [if_pos hrange] at h
        contradiction
      · rw [if_neg hrange] at h ⊢
        refine ⟨v, rfl, ?_, rfl⟩
        simp only [PicCall.run]
        cases hwrite : (self.picWriteOneRegister spi reg v s).1 with
        | error e =>
            rw [hwrite] at h
            contradiction
        | ok _ => rfl

theorem scanHu_decimal (v : PicValue) :
    scanHu (Printf.decimal v.toNat ++ ['\n']) = some v := by
  have hstring : cString (Printf.decimal v.toNat ++ ['\n']) = Printf.decimal v.toNat ++ ['\n'] := by
    apply List.takeWhile_eq_self_iff.mpr
    intro c hc
    rcases List.mem_append.mp hc with hdigit | hend
    · exact decide_eq_true (isDigit_ne_null (Printf.decimal_digits v.toNat c hdigit))
    · rw [List.mem_singleton.mp hend]
      decide
  have hscan := Printf.scanUnsigned_decimal v.toNat (s := ['\n']) (Scanf.ends_cons (by decide))
  unfold scanHu
  rw [hstring, hscan, Option.map_some, BitVec.ofNat_toNat, BitVec.setWidth_eq]

/-- A number stored to an output is shown there, as the number it was scanned as, until a call
writes the register: and what is shown stores the same number again. -/
theorem ascii_returns {D : Device σ} {value : σ → Nat → PicValue} {output : Nat → Prop}
    (K : Keeps D value output) (reg : PicRegister) (hreg : output reg.ctorIdx) (buf : List Char)
    (calls : List PicCall) (hcalls : ∀ call ∈ calls, ∀ o ∈ call.asked, ¬o.Writes reg.ctorIdx)
    (self : PicData) (s : σ) (count : Nat) (text : List Char) :
    let w := self.picWriteRegisterAscii D.spi reg buf s
    let c := PicCall.runs D.spi calls w.2.1 w.2.2
    w.1 = .ok count → (c.2.1.picReadRegisterAscii D.spi reg c.2.2).1 = .ok text →
      scanHu text = scanHu buf ∧ ∃ v, scanHu buf = some v ∧
        text = Printf.decimal v.toNat ++ ['\n'] := by
  intro w c hstored hshown
  obtain ⟨v, hscan, hresult, hleft⟩ := picWriteRegisterAscii_ok hstored
  obtain ⟨d, hwrite, hshows⟩ := (PicCall.writeOneRegister reg v).run_eq D (self.shows_seen s)
  obtain ⟨d', hruns, hshows'⟩ := PicCall.runs_eq D hshows calls
  obtain ⟨d'', hread, -⟩ := (PicCall.readOneRegister reg).run_eq D hshows'
  rw [hwrite] at hresult hleft
  have hsame {u : PicValue} := K.write_read hreg hcalls (a := self.seen s) (u := u) hresult
  simp only [w, c, hleft, hruns] at hshown
  have hone := congrArg (fun r => r.1) hread
  simp only [PicCall.run] at hone
  simp only [PicData.picReadRegisterAscii] at hshown
  generalize (d'.picReadOneRegister D.spi reg _).1 = shown at hone hshown
  cases shown with
  | error e => contradiction
  | ok u =>
      have huv : u = v := hsame hone.symm
      have htext := Except.ok.inj hshown
      rw [← htext, scanHu_decimal, hscan, huv]
      exact ⟨rfl, v, rfl, rfl⟩

theorem ascii_returns_lid :
    scanHu ['5', '1', '2', '\n'] = scanHu ['0', '5', '1', '2'] ∧
      ∃ v, scanHu ['0', '5', '1', '2'] = some v ∧
        ['5', '1', '2', '\n'] = Printf.decimal v.toNat ++ ['\n'] :=
  ascii_returns outputBank_keeps .lidLed (by decide) ['0', '5', '1', '2']
    [.readOneRegister .dummy] (by
      intro call hcall o ho hwrites
      rw [List.mem_singleton.mp hcall] at ho
      rw [List.mem_singleton.mp ho] at hwrites
      exact hwrites)
    ⟨⟨fun _ => 0xff⟩, fun _ => 0xff, 0⟩ (fun _ => 3) 4 ['5', '1', '2', '\n'] (by decide) (by decide)

/-! The buffers: one half is sent from, the other received into, and both are copied from. -/

def txRxBufSize : Nat := maxRegistersPerTransfer * 2 * 3

def logged (spi : Spi σ) : Spi (σ × List (List Byte)) := fun tx s =>
  let r := spi tx s.1
  (r.1, r.2, s.2 ++ [tx])

def Fits (len : Nat) : Prop := len % 3 = 0 ∧ len ≤ txRxBufSize / 2

/-- All that has been sent fits, and what is copied from the receive buffer. -/
def AllFit (self : PicData) (s : σ × List (List Byte)) : Prop :=
  Fits self.rxbufSize ∧ ∀ tx ∈ s.2, Fits tx.length

theorem picTransfer_fits (spi : Spi σ) {self : PicData} {s : σ × List (List Byte)} {tx : Pic}
    {len : Nat} (hlen : Fits len) (h : AllFit self s) :
    AllFit (self.picTransfer (logged spi) tx len s).2.1
      (self.picTransfer (logged spi) tx len s).2.2 := by
  have hsent : ∀ sent ∈ s.2 ++ [(List.range len).map tx.txbuf], Fits sent.length := by
    intro sent hsent
    rcases List.mem_append.mp hsent with hbefore | hnow
    · exact h.2 sent hbefore
    · rw [List.mem_singleton.mp hnow, List.length_map, List.length_range]
      exact hlen
  simp only [PicData.picTransfer, logged]
  exact ⟨hlen, hsent⟩

theorem numRegs_le (firstReg lastReg : PicRegister) :
    PicCall.numRegs firstReg lastReg ≤ picNumRegisters := by
  have hlast := lastReg.ctorIdx_lt
  unfold PicCall.numRegs
  omega

theorem PicCall.run_fits (spi : Spi σ) (call : PicCall) {self : PicData}
    {s : σ × List (List Byte)} (h : AllFit self s) :
    AllFit (call.run (logged spi) self s).2.1 (call.run (logged spi) self s).2.2 := by
  have hhalf : txRxBufSize / 2 = 6 * picNumRegisters := rfl
  have hsome : 1 ≤ picNumRegisters := by decide
  have hone : Fits 3 := ⟨rfl, by omega⟩
  have htwo : Fits 6 := ⟨rfl, by omega⟩
  cases call with
  | readOneRegister reg => exact picTransfer_fits spi hone h
  | writeOneRegister reg newValue => exact picTransfer_fits spi htwo h
  | readRegisterRange firstReg lastReg =>
      have hcount := numRegs_le firstReg lastReg
      simp only [PicCall.run, PicData.picReadRegisterRange]
      split
      · exact h
      · refine picTransfer_fits spi ?_ h
        unfold numRegs at hcount
        unfold Fits
        omega
  | writeRegisterRange firstReg lastReg buf =>
      have hcount := numRegs_le firstReg lastReg
      simp only [PicCall.run, PicData.picWriteRegisterRange]
      split
      · exact h
      · split
        · exact h
        · refine picTransfer_fits spi ?_ h
          unfold numRegs at hcount
          unfold Fits
          omega
  | writeData buf =>
      simp only [PicCall.run, PicData.picWriteData]
      split
      · exact h
      · next hthree =>
          split
          · exact h
          · next hbig => exact picTransfer_fits spi ⟨not_not.mp hthree, Nat.not_lt.mp hbig⟩ h

theorem PicCall.runs_fits (spi : Spi σ) (calls : List PicCall) {self : PicData}
    {s : σ × List (List Byte)} (h : AllFit self s) :
    AllFit (runs (logged spi) calls self s).2.1 (runs (logged spi) calls self s).2.2 := by
  induction calls generalizing self s with
  | nil => exact h
  | cons call calls ih => exact ih (call.run_fits spi h)

theorem PicData.hexShow_short {self : PicData} (h : Fits self.rxbufSize) :
    self.hexShow.length < pageSize := by
  have hhalf : txRxBufSize / 2 = 102 := rfl
  unfold hexShow
  cases hvalues : (List.range (self.rxbufSize / 3)).map self.value with
  | nil => decide
  | cons v rest =>
      have hcount := congrArg List.length hvalues
      rw [List.length_map, List.length_range, List.length_cons] at hcount
      have hbound := h.2
      rw [hexText_length]
      unfold pageSize
      omega

/-- From a driver that has just been probed, over any bus and by any calls: what is sent is
whole transactions out of the one half, what is read back stays in the other, and the text of it
fits its page. -/
theorem transfers_fit (spi : Spi σ) (calls : List PicCall) (tx : Pic) (rxbuf : Nat → Byte) (s : σ) :
    let r := PicCall.runs (logged spi) calls ⟨tx, rxbuf, 0⟩ (s, [])
    (∀ sent ∈ r.2.2.2, sent.length % 3 = 0 ∧ sent.length ≤ txRxBufSize / 2) ∧
      r.2.1.picCopyLastReadData.length ≤ txRxBufSize / 2 ∧ r.2.1.hexShow.length < pageSize := by
  have hprobed : AllFit ⟨tx, rxbuf, 0⟩ (s, []) :=
    ⟨⟨rfl, Nat.zero_le _⟩, fun sent hsent => absurd hsent List.not_mem_nil⟩
  obtain ⟨hsize, hsent⟩ := PicCall.runs_fits spi calls hprobed
  refine ⟨hsent, ?_, PicData.hexShow_short hsize⟩
  rw [PicData.picCopyLastReadData, List.length_map, List.length_range]
  exact hsize.2

end Glowforge.Bus
