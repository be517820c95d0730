import Glowforge.Bus.TenBit
import Mathlib.Data.List.Forall2

/-! The hex attribute of the PIC: a list of registers, each to be written or read. The
commas are counted first, and then a field is scanned after each of them. -/
namespace Glowforge.Bus
open Foundation.Scanf

/-- `sscanf(buf, "%hhx=%hx", &reg, &value)`, as what it assigns. -/
def scanField (buf : List Char) : Option (Byte × Option PicValue) :=
  (scanUnsigned 16 buf).map fun r =>
    (BitVec.ofNat 8 r.1,
      match r.2 with
      | '=' :: rest => (scanUnsigned 16 rest).map fun q => BitVec.ofNat 16 q.1
      | _ => none)

def transaction (field : Byte × Option PicValue) : PicTransaction :=
  match field.2 with
  | some value => ⟨registerWriteCommand field.1, value⟩
  | none => ⟨registerReadCommand field.1, 0⟩

/-- `strchr(buf, ',')`, and past the comma. -/
def nextField : List Char → Option (List Char)
  | [] => none
  | c :: cs => if c = ',' then some cs else nextField cs

/-- The scanning loop: at most so many fields, each from where the one before left `buf`. -/
def scanFields : Nat → Option (List Char) → Except Errno (List PicTransaction)
  | 0, _ => .ok []
  | _ + 1, none => .ok []
  | n + 1, some buf =>
      match scanField buf with
      | none => .error .EINVAL
      | some field => (scanFields n (nextField buf)).map (transaction field :: ·)

def hexStore (self : Pic) (answer : Answer) (buf : List Char) : List Obs × Except Errno Nat :=
  if buf.length = 0 then ([], .ok 0)
  else if buf.length ≥ pageSize then ([], .error .E2BIG)
  else if 1 + buf.count ',' > maxRegistersPerTransfer then ([], .error .E2BIG)
  else
    match scanFields (1 + buf.count ',') (some (cString buf)) with
    | .error e => ([], .error e)
    | .ok raw =>
        let r := self.picWriteData (raw.flatMap PicTransaction.bytes) answer
        (r.1, r.2.map fun _ => buf.length)

/-- A register number of one or two digits, and a value of one to four. -/
structure HexField where
  reg : List Char
  value : Option (List Char)
  reg_length : 1 ≤ reg.length ∧ reg.length ≤ 2
  reg_digits : ∀ c ∈ reg, isDigit 16 c = true
  value_length : ∀ v ∈ value, 1 ≤ v.length ∧ v.length ≤ 4
  value_digits : ∀ v ∈ value, ∀ c ∈ v, isDigit 16 c = true

namespace HexField

def chars (f : HexField) : List Char :=
  match f.value with
  | none => f.reg
  | some v => f.reg ++ '=' :: v

def number (f : HexField) : Nat := denote 16 f.reg

/-- The transaction is what the field asks for: a write of its value to the register it
names, or a read of that register. -/
def Asks (f : HexField) (t : PicTransaction) : Prop :=
  register t.cmd = f.number ∧
    match f.value with
    | none => isWrite t.cmd = false
    | some v => isWrite t.cmd = true ∧ t.value.toNat = denote 16 v

end HexField

structure HexList where
  first : HexField
  rest : List HexField
  short : rest.length + 1 ≤ maxRegistersPerTransfer

def HexList.fields (l : HexList) : List HexField := l.first :: l.rest

def HexList.chars (l : HexList) : List Char :=
  l.first.chars ++ l.rest.flatMap fun f => ',' :: f.chars

/-- The list is rejected, or each field is transmitted as the transaction it asks for. -/
def SendsWhatWasAsked (l : HexList) (r : List Obs × Except Errno Nat) : Prop :=
  (r.1 = [] ∧ ∃ e, r.2 = .error e) ∨
  ∃ ts : List PicTransaction, List.Forall₂ HexField.Asks l.fields ts ∧
    r.1 = [.spiSyncTransfer (ts.flatMap PicTransaction.bytes)]

theorem digit_ends {c : Char} (h : isDigit 16 c = true) : c ≠ ',' ∧ c ≠ '=' ∧ c ≠ '\x00' := by
  have hvalue := digitValue_isSome h
  refine ⟨?_, ?_, ?_⟩ <;>
  · rintro rfl
    exact absurd hvalue (by decide)

theorem ends_comma (s : List Char) : Ends 16 (',' :: s) := ends_cons (by decide)

theorem ends_equals (s : List Char) : Ends 16 ('=' :: s) := ends_cons (by decide)

namespace HexField

def scanned (f : HexField) : Byte × Option PicValue :=
  (BitVec.ofNat 8 f.number, f.value.map fun v => BitVec.ofNat 16 (denote 16 v))

theorem scanField_chars (f : HexField) {s : List Char} (hs : Ends 16 s)
    (hplain : s.head? ≠ some '=') : scanField (f.chars ++ s) = some f.scanned := by
  have hreg : f.reg ≠ [] := List.ne_nil_of_length_pos f.reg_length.1
  unfold scanField scanned chars
  cases hv : f.value with
  | none =>
      simp only
      rw [scanUnsigned_digits hreg f.reg_digits hs]
      cases s with
      | nil => rfl
      | cons c cs =>
          have hc : c ≠ '=' := fun h => hplain (congrArg some h)
          simp only [Option.map_some, Option.map_none, number]
          split
          · next heq => exact absurd (List.cons.inj heq).1 hc
          · rfl
  | some v =>
      have hvne : v ≠ [] := List.ne_nil_of_length_pos (f.value_length v hv).1
      simp only [List.append_assoc, List.cons_append]
      rw [scanUnsigned_digits hreg f.reg_digits (ends_equals (v ++ s))]
      simp only [Option.map_some, scanUnsigned_digits hvne (f.value_digits v hv) hs, number]

theorem chars_plain (f : HexField) : ∀ c ∈ f.chars, c ≠ ',' ∧ c ≠ '\x00' := by
  intro c hc
  have hdigit (h : isDigit 16 c = true) : c ≠ ',' ∧ c ≠ '\x00' :=
    ⟨(digit_ends h).1, (digit_ends h).2.2⟩
  unfold chars at hc
  split at hc
  · exact hdigit (f.reg_digits c hc)
  · next v hv =>
      rcases List.mem_append.mp hc with hreg | hvalue
      · exact hdigit (f.reg_digits c hreg)
      · rcases List.mem_cons.mp hvalue with rfl | hvalue
        · decide
        · exact hdigit (f.value_digits v hv c hvalue)

theorem chars_length (f : HexField) : 1 ≤ f.chars.length ∧ f.chars.length ≤ 7 := by
  have hreg := f.reg_length
  unfold chars
  split
  · omega
  · next v hv =>
      have hvalue := f.value_length v hv
      rw [List.length_append, List.length_cons]
      omega

theorem number_lt (f : HexField) : f.number < 2 ^ 8 := by
  have hlt := denote_lt f.reg_digits
  have hpow := Nat.pow_le_pow_right (n := 16) (by decide) f.reg_length.2
  unfold number
  omega

/-- The field is sent as asked exactly if its register number leaves the write flag alone. -/
theorem asks_iff (f : HexField) : f.Asks (transaction f.scanned) ↔ f.number < 64 := by
  have hreg : (BitVec.ofNat 8 f.number).toNat = f.number :=
    Nat.mod_eq_of_lt f.number_lt
  have hread := read_command_iff (BitVec.ofNat 8 f.number)
  have hwrite := write_command_iff (BitVec.ofNat 8 f.number)
  rw [hreg] at hread hwrite
  unfold Asks transaction scanned
  cases hv : f.value with
  | none => exact and_comm.trans hread
  | some v =>
      have hlt := denote_lt (f.value_digits v hv)
      have hpow := Nat.pow_le_pow_right (n := 16) (by decide) (f.value_length v hv).2
      have hvalue : (BitVec.ofNat 16 (denote 16 v)).toNat = denote 16 v :=
        Nat.mod_eq_of_lt (by omega)
      simp only [Option.map_some, hvalue, and_true]
      exact and_comm.trans hwrite

end HexField

theorem nextField_plain {s : List Char} (h : ∀ c ∈ s, c ≠ ',') : nextField s = none := by
  induction s with
  | nil => rfl
  | cons c cs ih =>
      rw [nextField, if_neg (h c List.mem_cons_self)]
      exact ih fun d hd => h d (List.mem_cons_of_mem c hd)

theorem nextField_comma {s : List Char} (h : ∀ c ∈ s, c ≠ ',') (t : List Char) :
    nextField (s ++ ',' :: t) = some t := by
  induction s with
  | nil => exact if_pos rfl
  | cons c cs ih =>
      rw [List.cons_append, nextField, if_neg (h c List.mem_cons_self)]
      exact ih fun d hd => h d (List.mem_cons_of_mem c hd)

theorem scanFields_chars (f : HexField) (fs : List HexField) :
    scanFields (fs.length + 1) (some (f.chars ++ fs.flatMap fun g => ',' :: g.chars)) =
      .ok ((f :: fs).map fun g => transaction g.scanned) := by
  induction fs generalizing f with
  | nil =>
      rw [List.flatMap_nil, List.length_nil, scanFields, f.scanField_chars (ends_nil 16) nofun,
        List.append_nil, nextField_plain fun c hc => (f.chars_plain c hc).1]
      rfl
  | cons g gs ih =>
      rw [List.flatMap_cons, List.cons_append, List.length_cons, scanFields,
        f.scanField_chars (ends_comma _) (by simp),
        nextField_comma (fun c hc => (f.chars_plain c hc).1), ih g]
      rfl

namespace HexList

theorem count_comma (l : HexList) : 1 + l.chars.count ',' = l.fields.length := by
  have hplain (f : HexField) : f.chars.count ',' = 0 :=
    List.count_eq_zero_of_not_mem fun h => (f.chars_plain _ h).1 rfl
  have hrest (fs : List HexField) : (fs.flatMap fun f => ',' :: f.chars).count ',' = fs.length := by
    induction fs with
    | nil => rfl
    | cons f fs ih =>
        rw [List.flatMap_cons, List.count_append, ih, List.count_cons_self, hplain f,
          List.length_cons, Nat.zero_add, Nat.add_comm]
  unfold chars fields
  rw [List.count_append, hplain, hrest, List.length_cons]
  omega

theorem chars_length (l : HexList) : 1 ≤ l.chars.length ∧ l.chars.length ≤ 8 * l.fields.length := by
  have hfirst := l.first.chars_length
  have hrest (fs : List HexField) :
      (fs.flatMap fun f => ',' :: f.chars).length ≤ 8 * fs.length := by
    induction fs with
    | nil => exact le_rfl
    | cons f fs ih =>
        have hf := f.chars_length
        rw [List.flatMap_cons, List.length_append, List.length_cons, List.length_cons]
        omega
  have htail := hrest l.rest
  unfold chars fields
  rw [List.length_append, List.length_cons]
  omega

theorem cString_chars (l : HexList) : cString l.chars = l.chars := by
  apply List.takeWhile_eq_self_iff.mpr
  intro c hc
  apply decide_eq_true
  unfold chars at hc
  rcases List.mem_append.mp hc with hfirst | hrest
  · exact (l.first.chars_plain c hfirst).2
  · obtain ⟨f, _, hf⟩ := List.mem_flatMap.mp hrest
    rcases List.mem_cons.mp hf with rfl | hf
    · decide
    · exact (f.chars_plain c hf).2

def transactions (l : HexList) : List PicTransaction :=
  l.fields.map fun f => transaction f.scanned

theorem bytes_length (ts : List PicTransaction) :
    (ts.flatMap PicTransaction.bytes).length = 3 * ts.length := by
  induction ts with
  | nil => rfl
  | cons t ts ih =>
      rw [List.flatMap_cons, List.length_append, ih, List.length_cons]
      simp only [PicTransaction.bytes, List.length_cons, List.length_nil]
      omega

theorem bytes_inj {ts us : List PicTransaction}
    (h : ts.flatMap PicTransaction.bytes = us.flatMap PicTransaction.bytes) : ts = us := by
  induction ts generalizing us with
  | nil =>
      cases us with
      | nil => rfl
      | cons u us => contradiction
  | cons t ts ih =>
      cases us with
      | nil => contradiction
      | cons u us =>
          obtain ⟨hcmd, hrest⟩ := List.cons.inj h
          obtain ⟨hlo, hrest⟩ := List.cons.inj hrest
          obtain ⟨hhi, hrest⟩ := List.cons.inj hrest
          have htail : ts = us := ih hrest
          have hvalue : t.value = u.value := loByte_hiByte_inj hlo hhi
          have hhead : t = u := by
            cases t
            cases u
            cases hcmd
            cases hvalue
            rfl
          rw [hhead, htail]

theorem hexStore_transmits (l : HexList) (self : Pic) (answer : Answer) :
    (hexStore self answer l.chars).1 =
      [.spiSyncTransfer (l.transactions.flatMap PicTransaction.bytes)] := by
  have hshort : l.fields.length ≤ maxRegistersPerTransfer := l.short
  have hmax : maxRegistersPerTransfer = 34 := rfl
  have hlength := l.chars_length
  have hscan := scanFields_chars l.first l.rest
  have hbytes := bytes_length l.transactions
  have hcount : l.transactions.length = l.fields.length := List.length_map _
  unfold hexStore
  rw [if_neg (by omega), if_neg (by unfold pageSize; omega), l.count_comma,
    if_neg (Nat.not_lt.mpr hshort), l.cString_chars]
  have hfields : scanFields l.fields.length (some l.chars) = .ok l.transactions := hscan
  rw [hfields]
  simp only
  rw [Pic.picWriteData_transmits answer (by omega) (by omega)]

end HexList

theorem hexStore_sends_iff (l : HexList) (self : Pic) (answer : Answer) :
    SendsWhatWasAsked l (hexStore self answer l.chars) ↔ ∀ f ∈ l.fields, f.number < 64 := by
  have hsent := l.hexStore_transmits self answer
  have hasks : List.Forall₂ HexField.Asks l.fields l.transactions ↔
      ∀ f ∈ l.fields, f.number < 64 := by
    unfold HexList.transactions
    rw [List.forall₂_map_right_iff, List.forall₂_same]
    exact forall₂_congr fun f _ => f.asks_iff
  unfold SendsWhatWasAsked
  rw [hsent, ← hasks]
  constructor
  · rintro (⟨hnone, _⟩ | ⟨ts, hts, heq⟩)
    · contradiction
    · have hbytes := Obs.spiSyncTransfer.inj (List.cons.inj heq).1
      rwa [HexList.bytes_inj hbytes]
  · intro h
    exact .inr ⟨l.transactions, h, rfl⟩

def readOf41 : HexField where
  reg := ['4', '1']
  value := none
  reg_length := by decide
  reg_digits := List.all_eq_true.mp (by decide)
  value_length := nofun
  value_digits := nofun

/-- It is sent as a write of zero to register 1. -/
theorem hexStore_read_writes :
    (hexStore ⟨fun _ => 0⟩ (.error Errno.EIO) readOf41.chars).1 =
        [.spiSyncTransfer (PicTransaction.bytes ⟨registerWriteCommand 1, 0⟩)] ∧
      ¬ ∀ (l : HexList) (self : Pic) (answer : Answer),
        SendsWhatWasAsked l (hexStore self answer l.chars) := by
  refine ⟨by decide +kernel, ?_⟩
  intro h
  have hsent := HexList.hexStore_transmits ⟨readOf41, [], by decide⟩ ⟨fun _ => 0⟩ (.error Errno.EIO)
  rcases h ⟨readOf41, [], by decide⟩ ⟨fun _ => 0⟩ (.error Errno.EIO) with ⟨hnone, _⟩ | ⟨ts, hts, heq⟩
  · rw [hsent] at hnone
    contradiction
  · rw [hsent] at heq
    have hbytes := Obs.spiSyncTransfer.inj (List.cons.inj heq).1
    rw [← HexList.bytes_inj hbytes] at hts
    cases hts with
    | cons hasks _ => exact absurd (readOf41.asks_iff.mp hasks) (by decide)

end Glowforge.Bus
