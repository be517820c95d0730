import Glowforge.Asm.Layout
import Glowforge.Sdma.Isa

/-! What a word of object code says. Each operation is told from all others by the bits it
fixes, and has its operands in the fields of its argument function: a line of source is read
back from its word, with the distance to a label in the place of the label. -/
namespace Glowforge.Sdma

def Instr.relabel {L M : Type} (g : L → M) : Instr L → Instr M
  | .ldi r i => .ldi r i
  | .mov r s => .mov r s
  | .add r s => .add r s
  | .and r s => .and r s
  | .andn r s => .andn r s
  | .addi r i => .addi r i
  | .subi r i => .subi r i
  | .andi r i => .andi r i
  | .xori r i => .xori r i
  | .bseti r n => .bseti r n
  | .bclri r n => .bclri r n
  | .btsti r n => .btsti r n
  | .cmpeq r s => .cmpeq r s
  | .cmpeqi r i => .cmpeqi r i
  | .ld r b d => .ld r b d
  | .st r b d => .st r b d
  | .ldf r u => .ldf r u
  | .stf r u => .stf r u
  | .bt l => .bt (g l)
  | .bf l => .bf (g l)
  | .loop l f => .loop (g l) f
  | .done j => .done j
  | .notify j => .notify j

end Glowforge.Sdma

namespace Glowforge.Asm
open Foundation Sdma

/-- What an instruction is about; a branch is to an `L`. -/
inductive Operands (L : Type) where
  | none
  | num (n : Nat)
  | reg (r : Reg)
  | regNum (r : Reg) (n : Nat)
  | regReg (r s : Reg)
  | displaced (r b : Reg) (d : Nat)
  | address (a : Nat)
  | target (l : L)
  | loopTarget (l : L) (f : Nat)
  deriving DecidableEq, Repr

def Operands.map {L M : Type} (g : L → M) : Operands L → Operands M
  | .none => .none
  | .num n => .num n
  | .reg r => .reg r
  | .regNum r n => .regNum r n
  | .regReg r s => .regReg r s
  | .displaced r b d => .displaced r b d
  | .address a => .address a
  | .target l => .target (g l)
  | .loopTarget l f => .loopTarget (g l) f

/-- The opcodes that the pulse script uses, on operands of their kind. -/
def Opcode.instr {L : Type} : Opcode → Operands L → Option (Instr L)
  | .done, .num j => some (.done j)
  | .yield, .none => some (.done 0)
  | .yieldge, .none => some (.done 1)
  | .notify, .num j => some (.notify j)
  | .bclri, .regNum r n => some (.bclri r n)
  | .bseti, .regNum r n => some (.bseti r n)
  | .btsti, .regNum r n => some (.btsti r n)
  | .mov, .regReg r s => some (.mov r s)
  | .add, .regReg r s => some (.add r s)
  | .andn, .regReg r s => some (.andn r s)
  | .and, .regReg r s => some (.and r s)
  | .cmpeq, .regReg r s => some (.cmpeq r s)
  | .ldi, .regNum r i => some (.ldi r (BitVec.ofNat 8 i))
  | .xori, .regNum r i => some (.xori r (BitVec.ofNat 8 i))
  | .addi, .regNum r i => some (.addi r (BitVec.ofNat 8 i))
  | .subi, .regNum r i => some (.subi r (BitVec.ofNat 8 i))
  | .andi, .regNum r i => some (.andi r (BitVec.ofNat 8 i))
  | .cmpeqi, .regNum r i => some (.cmpeqi r (BitVec.ofNat 8 i))
  | .ld, .displaced r b d => some (.ld r b (BitVec.ofNat 32 d))
  | .st, .displaced r b d => some (.st r b (BitVec.ofNat 32 d))
  | .ldf, .regNum r u => some (.ldf r (BitVec.ofNat 8 u))
  | .stf, .regNum r u => some (.stf r (BitVec.ofNat 8 u))
  | .loop, .loopTarget l f => some (.loop l f)
  | .bf, .target l => some (.bf l)
  | .bt, .target l => some (.bt l)
  | _, _ => none

theorem Opcode.instr_map {L M : Type} (g : L → M) (op : Opcode) (ops : Operands L) :
    op.instr (ops.map g) = (op.instr ops).map (Instr.relabel g) := by
  cases op <;> cases ops <;> rfl

def regOf (n : BitVec 3) : Reg :=
  match n with
  | 0 => .r0
  | 1 => .r1
  | 2 => .r2
  | 3 => .r3
  | 4 => .r4
  | 5 => .r5
  | 6 => .r6
  | 7 => .r7

/-! A line of source, read for itself. -/

def readReg (reg : List Char) : Option Reg :=
  (oneRegister reg).toOption.map fun n => regOf (BitVec.ofInt 3 n)

def readNum (bits : Nat) (arg : List Char) : Option Nat :=
  (numericArg arg bits).toOption.map fun n => (BitVec.ofInt bits n).toNat

def readLabel (arg : List Char) : Option (List Char) :=
  if getNumber arg = none then some arg else none

abbrev firstArg {n : Nat} (vals : Fin (n + 1) → List Char) : List Char := vals 0

abbrev secondArg {n : Nat} (vals : Fin (n + 2) → List Char) : List Char := vals 1

/-- The operands of a line, where `place` reads what is branched to. -/
def ArgFn.read {L : Type} (place : List Char → Option L) (args : List Char) :
    ArgFn → Option (Operands L)
  | .noargs => if args = [] then some .none else none
  | .j8x3 => do
      let vals ← (numsplit args 1).toOption
      some (.num (← readNum 3 (firstArg vals)))
  | .f8x2 => do
      let vals ← (numsplit args 1).toOption
      some (.num (← readNum 2 (firstArg vals)))
  | .r8x3 => do
      let vals ← (numsplit args 1).toOption
      some (.reg (← readReg (firstArg vals)))
  | .r8x3n0x5 => do
      let vals ← (numsplit args 2).toOption
      some (.regNum (← readReg (firstArg vals)) (← readNum 5 (secondArg vals)))
  | .r8x3s0x3 => do
      let vals ← (numsplit args 2).toOption
      some (.regReg (← readReg (firstArg vals)) (← readReg (secondArg vals)))
  | .r8x3i0x8 | .r8x3u0x8 => do
      let vals ← (numsplit args 2).toOption
      some (.regNum (← readReg (firstArg vals)) (← readNum 8 (secondArg vals)))
  | .r8x3d3x5b0x3 => do
      let (ra, rb, displacement) ← displacementArgs args
      some (.displaced (← readReg ra) (← readReg rb) (← readNum 5 displacement))
  | .f8x2n0x8 => do
      let vals ← (numsplit args 2).toOption
      some (.loopTarget (← place (firstArg vals)) (← readNum 2 (secondArg vals)))
  | .p0x8 => do
      let vals ← (numsplit args 1).toOption
      some (.target (← place (firstArg vals)))
  | .a0x14 => do
      let vals ← (numsplit args 1).toOption
      some (.address (← readNum 14 (firstArg vals)))

def readInstr (instruction : List Char × List Char) : Option (Instr (List Char)) := do
  let op ← Opcode.ofName instruction.1
  let ops ← op.argFn.read readLabel instruction.2
  op.instr ops

def readDistance (context : Context) (arg : List Char) : Option Int :=
  (numericArgOrLabel arg context).toOption

def Opcode.meaning {L : Type} : Opcode → Operands L → Opcode × Operands L
  | .yield, _ => (.done, .num 0)
  | .yieldge, _ => (.done, .num 1)
  | op, ops => (op, ops)

/-- What a line asks of the engine, of all that the instruction set has. -/
def asked (context : Context) (instruction : List Char × List Char) :
    Option (Opcode × Operands Int) := do
  let op ← Opcode.ofName instruction.1
  let ops ← op.argFn.read (readDistance context) instruction.2
  some (op.meaning ops)

/-! A word, taken apart. -/

theorem Opcode.base_and_free (op : Opcode) : op.base &&& op.argFn.free = 0#16 := by
  cases op <;> decide

def Opcode.pattern (op : Opcode) : Pattern 16 := ⟨op.base, op.argFn.free, op.base_and_free⟩

/-- All but `yield` and `yieldge`, which are two ways to write `done`. -/
def Opcode.table : List Opcode := all.filter fun op => op ≠ .yield ∧ op ≠ .yieldge

def fieldNat (shift width : Nat) (x : Code) : Nat := ((BitField.mk shift width).get x).toNat

def fieldReg (shift : Nat) (x : Code) : Reg := regOf ((BitField.mk shift 3).get x)

def ArgFn.operands (x : Code) : ArgFn → Operands Int
  | .noargs => .none
  | .j8x3 => .num (fieldNat 8 3 x)
  | .f8x2 => .num (fieldNat 8 2 x)
  | .r8x3 => .reg (fieldReg 8 x)
  | .r8x3n0x5 => .regNum (fieldReg 8 x) (fieldNat 0 5 x)
  | .r8x3s0x3 => .regReg (fieldReg 8 x) (fieldReg 0 x)
  | .r8x3i0x8 | .r8x3u0x8 => .regNum (fieldReg 8 x) (fieldNat 0 8 x)
  | .r8x3d3x5b0x3 => .displaced (fieldReg 8 x) (fieldReg 0 x) (fieldNat 3 5 x)
  | .f8x2n0x8 => .loopTarget (fieldNat 0 8 x) (fieldNat 8 2 x)
  | .p0x8 => .target ((BitField.mk 0 8).get x).toInt
  | .a0x14 => .address (fieldNat 0 14 x)

def disassemble (x : Code) : Option (Opcode × Operands Int) :=
  (operation Opcode.pattern Opcode.table x).map fun op => (op, op.argFn.operands x)

def decode (x : Code) : Option (Instr Int) := do
  let op ← operation Opcode.pattern Opcode.table x
  op.instr (op.argFn.operands x)

theorem Opcode.table_distinct :
    ∀ j ∈ table, ∀ k ∈ table, j = k ∨ j.pattern.Distinct k.pattern := by
  decide +kernel

theorem bind_eq_ok {α β : Type} {x : Except AsmError α} {f : α → Except AsmError β} {b : β} :
    (x >>= f) = .ok b ↔ ∃ a, x = .ok a ∧ f a = .ok b := by
  cases x with
  | error e => exact iff_of_false (by rintro h; cases h) (by rintro ⟨a, h, -⟩; cases h)
  | ok a => exact ⟨fun h => ⟨a, rfl, h⟩, by rintro ⟨a, h, hf⟩; cases h; exact hf⟩

theorem ArgFn.field_le {f : ArgFn} {g : BitField} (h : g ∈ f.fields) :
    g.bits 16 &&& f.free = g.bits 16 := by
  cases f <;> revert g <;> decide

theorem ArgFn.put_and_free {f : ArgFn} {g : BitField} (h : g ∈ f.fields) (n : Int) :
    g.put 16 n &&& f.free = g.put 16 n :=
  BitField.put_and_of_le (field_le h) n

theorem ArgFn.mangle_and_free {f : ArgFn} {args : List Char} {context : Context} {bits : Code}
    (h : f.mangle args context = .ok bits) : bits &&& f.free = bits := by
  have hput {g : BitField} (hg : g ∈ f.fields) (n : Int) := put_and_free hg n
  cases f <;> simp only [mangle] at h
  case noargs =>
    unfold Asm.noargs at h
    split at h <;> cases h
    rfl
  case j8x3 | f8x2 | r8x3 | a0x14 =>
    simp only [Asm.j8x3, Asm.f8x2, Asm.r8x3, Asm.a0x14, bind_eq_ok, Except.ok.injEq] at h
    obtain ⟨_, -, n, -, rfl⟩ := h
    exact hput (by decide) n
  case r8x3n0x5 | r8x3s0x3 | r8x3i0x8 | r8x3u0x8 =>
    simp only [Asm.r8x3n0x5, Asm.r8x3s0x3, Asm.r8x3i0x8, Asm.r8x3u0x8, bind_eq_ok,
      Except.ok.injEq] at h
    obtain ⟨_, -, r, -, n, -, rfl⟩ := h
    exact BitField.or_and_of_le (hput (by decide) r) (hput (by decide) n)
  case p0x8 =>
    simp only [Asm.p0x8, bind_eq_ok] at h
    obtain ⟨_, -, p, -, h⟩ := h
    split at h <;> cases h
    exact hput (by decide) p
  case f8x2n0x8 =>
    simp only [Asm.f8x2n0x8, bind_eq_ok] at h
    obtain ⟨_, -, n, -, f, -, h⟩ := h
    split_ifs at h
    cases h
    exact BitField.or_and_of_le (hput (by decide) f) (hput (by decide) n)
  case r8x3d3x5b0x3 =>
    unfold Asm.r8x3d3x5b0x3 at h
    split at h
    · cases h
    · simp only [bind_eq_ok] at h
      obtain ⟨r, -, d, -, b, -, h⟩ := h
      split at h <;> cases h
      exact BitField.or_and_of_le (BitField.or_and_of_le (hput (by decide) r) (hput (by decide) d))
        (hput (by decide) b)

section Fields

variable {g g' : BitField} {base : Code} {n n' : Int}

theorem get_first (hfits : g.shift + g.width ≤ 16) (hbase : base &&& g.bits 16 = 0#16)
    (hapart : g'.bits 16 &&& g.bits 16 = 0#16) :
    g.get (base ||| (g.put 16 n ||| g'.put 16 n')) = BitVec.ofInt g.width n := by
  rw [← BitVec.or_assoc, BitField.get_or_of_clear (BitField.put_and_of_apart hapart n'),
    BitField.get_or_put hfits hbase]

theorem get_second (hfits : g'.shift + g'.width ≤ 16) (hbase : base &&& g'.bits 16 = 0#16)
    (hapart : g.bits 16 &&& g'.bits 16 = 0#16) :
    g'.get (base ||| (g.put 16 n ||| g'.put 16 n')) = BitVec.ofInt g'.width n' := by
  rw [← BitVec.or_assoc]
  have hclear := BitField.or_and_of_clear hbase (BitField.put_and_of_apart hapart n)
  exact BitField.get_or_put hfits hclear n'

end Fields

/-- How far a label is from the word after this one. -/
def Context.distance (context : Context) (label : List Char) : Int :=
  ((context.labels.lookup label).getD 0 : Nat) - (context.objectcode + 1 : Nat)

@[simp] theorem toOption_ok {α : Type} (a : α) :
    (Except.ok a : Except AsmError α).toOption = some a :=
  rfl

theorem toOption_eq_some {α : Type} {x : Except AsmError α} {a : α} :
    x.toOption = some a ↔ x = .ok a := by
  cases x with
  | error e => exact iff_of_false (by rintro h; cases h) (by rintro h; cases h)
  | ok b => exact ⟨fun h => by cases h; rfl, fun h => by cases h; rfl⟩

theorem readReg_eq {reg : List Char} {r : Reg} (h : readReg reg = some r) {n : Nat}
    (hn : oneRegister reg = .ok n) : r = regOf (BitVec.ofInt 3 n) := by
  unfold readReg at h
  rw [hn] at h
  exact (Option.some.inj h).symm

theorem readNum_eq {bits : Nat} {arg : List Char} {k : Nat} (h : readNum bits arg = some k)
    {n : Int} (hn : numericArg arg bits = .ok n) : k = (BitVec.ofInt bits n).toNat := by
  unfold readNum at h
  rw [hn] at h
  exact (Option.some.inj h).symm

theorem readLabel_eq {arg label : List Char} (h : readLabel arg = some label) {context : Context}
    {n : Int} (hn : numericArgOrLabel arg context = .ok n) : n = context.distance label := by
  unfold readLabel at h
  split at h
  · next hnumber =>
      cases h
      unfold numericArgOrLabel at hn
      rw [hnumber] at hn
      simp only at hn
      unfold Context.distance
      cases hl : context.labels.lookup arg with
      | none => rw [hl] at hn; cases hn
      | some a =>
          rw [hl] at hn
          exact (Except.ok.inj hn).symm
  · cases h

/-- A line's operands are in the fields of its word. -/
theorem ArgFn.operands_or {L : Type} {place : List Char → Option L} {distance : L → Int}
    {context : Context} (hplace : ∀ arg l n, place arg = some l →
      numericArgOrLabel arg context = .ok n → n = distance l)
    {f : ArgFn} {args : List Char} {bits base : Code} {ops : Operands L}
    (hread : f.read place args = some ops) (h : f.mangle args context = .ok bits)
    (hbase : base &&& f.free = 0#16) : f.operands (base ||| bits) = ops.map distance := by
  have hclear {g : BitField} (hg : g ∈ f.fields) : base &&& g.bits 16 = 0#16 :=
    BitField.and_bits_of_le hbase (field_le hg)
  cases f <;> simp only [mangle, read, operands, fieldNat, fieldReg] at h hread ⊢
  case noargs =>
    split at hread <;> cases hread
    rfl
  case j8x3 | f8x2 | a0x14 =>
    simp only [Asm.j8x3, Asm.f8x2, Asm.a0x14, bind_eq_ok, Except.ok.injEq] at h
    obtain ⟨vals, hvals, n, hn, rfl⟩ := h
    simp only [Option.bind_eq_bind, Option.bind_eq_some_iff, toOption_eq_some, hvals,
      Except.ok.injEq, exists_eq_left', Option.some.injEq] at hread
    obtain ⟨k, hk, rfl⟩ := hread
    rw [BitField.get_or_put (by decide) (hclear (by decide)), readNum_eq hk hn]
    rfl
  case r8x3 =>
    simp only [Asm.r8x3, bind_eq_ok, Except.ok.injEq] at h
    obtain ⟨vals, hvals, r, hr, rfl⟩ := h
    simp only [Option.bind_eq_bind, Option.bind_eq_some_iff, toOption_eq_some, hvals,
      Except.ok.injEq, exists_eq_left', Option.some.injEq] at hread
    obtain ⟨k, hk, rfl⟩ := hread
    rw [BitField.get_or_put (by decide) (hclear (by decide)), readReg_eq hk hr]
    rfl
  case r8x3n0x5 | r8x3i0x8 | r8x3u0x8 =>
    simp only [Asm.r8x3n0x5, Asm.r8x3i0x8, Asm.r8x3u0x8, bind_eq_ok, Except.ok.injEq] at h
    obtain ⟨vals, hvals, r, hr, n, hn, rfl⟩ := h
    simp only [Option.bind_eq_bind, Option.bind_eq_some_iff, toOption_eq_some, hvals,
      Except.ok.injEq, exists_eq_left', Option.some.injEq] at hread
    obtain ⟨reg, hreg, k, hk, rfl⟩ := hread
    rw [get_first (by decide) (hclear (by decide)) (by decide),
      get_second (by decide) (hclear (by decide)) (by decide), readReg_eq hreg hr, readNum_eq hk hn]
    rfl
  case r8x3s0x3 =>
    simp only [Asm.r8x3s0x3, bind_eq_ok, Except.ok.injEq] at h
    obtain ⟨vals, hvals, r, hr, s, hs, rfl⟩ := h
    simp only [Option.bind_eq_bind, Option.bind_eq_some_iff, toOption_eq_some, hvals,
      Except.ok.injEq, exists_eq_left', Option.some.injEq] at hread
    obtain ⟨reg, hreg, k, hk, rfl⟩ := hread
    rw [get_first (by decide) (hclear (by decide)) (by decide),
      get_second (by decide) (hclear (by decide)) (by decide), readReg_eq hreg hr, readReg_eq hk hs]
    rfl
  case p0x8 =>
    simp only [Asm.p0x8, bind_eq_ok] at h
    obtain ⟨vals, hvals, p, hp, h⟩ := h
    simp only [Option.bind_eq_bind, Option.bind_eq_some_iff, toOption_eq_some, hvals,
      Except.ok.injEq, exists_eq_left', Option.some.injEq] at hread
    obtain ⟨label, hlabel, rfl⟩ := hread
    split at h
    · cases h
    · next hrange =>
        cases h
        rw [BitField.get_or_put (by decide) (hclear (by decide)), Operands.map,
          ← hplace _ _ _ hlabel hp]
        congr 1
        exact BitVec.toInt_ofInt_eq_self (by decide) (by omega) (by omega)
  case f8x2n0x8 =>
    simp only [Asm.f8x2n0x8, bind_eq_ok] at h
    obtain ⟨vals, hvals, n, hn, f, hf, h⟩ := h
    simp only [Option.bind_eq_bind, Option.bind_eq_some_iff, toOption_eq_some, hvals,
      Except.ok.injEq, exists_eq_left', Option.some.injEq] at hread
    obtain ⟨label, hlabel, k, hk, rfl⟩ := hread
    split_ifs at h with hbehind hempty hfar
    cases h
    rw [get_first (by decide) (hclear (by decide)) (by decide),
      get_second (by decide) (hclear (by decide)) (by decide), Operands.map,
      ← hplace _ _ _ hlabel hn, readNum_eq hk hf]
    congr 1
    rw [BitVec.toNat_ofInt]
    omega
  case r8x3d3x5b0x3 =>
    unfold Asm.r8x3d3x5b0x3 at h
    cases hargs : displacementArgs args with
    | none => rw [hargs] at h; cases h
    | some found =>
        obtain ⟨ra, rb, displacement⟩ := found
        simp only [hargs, bind_eq_ok] at h hread
        obtain ⟨r, hr, d, hd, b, hb, h⟩ := h
        split at h <;> cases h
        simp only [Option.bind_eq_bind, Option.bind_eq_some_iff, Option.bind_some,
          Option.some.injEq] at hread
        obtain ⟨reg, hreg, base', hbase', k, hk, rfl⟩ := hread
        rw [readReg_eq hreg hr, readReg_eq hbase' hb, readNum_eq hk hd, ← BitVec.or_assoc]
        have hkeep (g : BitField) (hg : (BitField.mk 0 3).bits 16 &&& g.bits 16 = 0#16) (x : Code) :
            g.get (x ||| BitField.put 16 ⟨0, 3⟩ b) = g.get x :=
          BitField.get_or_of_clear (BitField.put_and_of_apart hg b)
        rw [hkeep ⟨8, 3⟩ (by decide), hkeep ⟨3, 5⟩ (by decide),
          get_first (by decide) (hclear (by decide)) (by decide),
          get_second (by decide) (hclear (by decide)) (by decide),
          BitField.get_or_put (by decide) (BitField.or_and_of_clear (hclear (by decide))
            (BitField.or_and_of_clear (BitField.put_and_of_apart (by decide) r)
              (BitField.put_and_of_apart (by decide) d)))]
        rfl

theorem noargs_eq {args : List Char} {context : Context} {bits : Code}
    (h : ArgFn.noargs.mangle args context = .ok bits) : bits = 0 := by
  change Asm.noargs args = .ok bits at h
  unfold Asm.noargs at h
  split at h
  · cases h
  · exact (Except.ok.inj h).symm

def Opcode.canonical : Opcode → Opcode
  | .yield | .yieldge => .done
  | op => op

theorem Opcode.canonical_mem (op : Opcode) : op.canonical ∈ table := by
  cases op <;> decide

/-- Whatever its operands, a word is one of its own operation's and of no other's. -/
theorem operation_binary {context : Context} {instruction : List Char × List Char} {word : Code}
    (h : binary true context instruction = .ok word) : ∃ op, Opcode.ofName instruction.1 = some op ∧
      operation Opcode.pattern Opcode.table word = some op.canonical := by
  unfold binary at h
  cases hop : Opcode.ofName instruction.1 with
  | none => rw [hop] at h; cases h
  | some op =>
      rw [hop] at h
      simp only [if_true] at h
      refine ⟨op, rfl, ?_⟩
      cases hbits : op.argFn.mangle instruction.2 context with
      | error e => rw [hbits] at h; cases h
      | ok bits =>
          rw [hbits] at h
          obtain rfl := Except.ok.inj h
          have hdistinct : ∀ j ∈ Opcode.table, j = op.canonical ∨
              j.pattern.Distinct op.canonical.pattern :=
            fun j hj => Opcode.table_distinct j hj _ op.canonical_mem
          by_cases hsame : op.canonical = op
          · rw [hsame] at hdistinct ⊢
            exact operation_or (hsame ▸ op.canonical_mem) hdistinct (ArgFn.mangle_and_free hbits)
          · have hnoargs : op.argFn = .noargs := by
              cases op <;> first | rfl | exact absurd rfl hsame
            rw [hnoargs] at hbits
            obtain rfl := noargs_eq hbits
            cases op <;> first | exact absurd rfl hsame | decide +kernel

theorem ArgFn.read_of_mangle {f : ArgFn} {args : List Char} {context : Context} {bits : Code}
    (h : f.mangle args context = .ok bits) :
    ∃ ops, f.read (readDistance context) args = some ops := by
  cases f <;> simp only [mangle] at h
  case noargs =>
    unfold Asm.noargs at h
    split at h
    · cases h
    · next hempty => exact ⟨.none, if_pos (not_not.mp hempty)⟩
  case j8x3 | f8x2 | a0x14 =>
    simp only [Asm.j8x3, Asm.f8x2, Asm.a0x14, bind_eq_ok] at h
    obtain ⟨vals, hvals, n, hn, -⟩ := h
    simp [read, readNum, hvals, hn]
  case r8x3 =>
    simp only [Asm.r8x3, bind_eq_ok] at h
    obtain ⟨vals, hvals, r, hr, -⟩ := h
    simp [read, readReg, hvals, hr]
  case r8x3n0x5 | r8x3i0x8 | r8x3u0x8 =>
    simp only [Asm.r8x3n0x5, Asm.r8x3i0x8, Asm.r8x3u0x8, bind_eq_ok] at h
    obtain ⟨vals, hvals, r, hr, n, hn, -⟩ := h
    simp [read, readReg, readNum, hvals, hr, hn]
  case r8x3s0x3 =>
    simp only [Asm.r8x3s0x3, bind_eq_ok] at h
    obtain ⟨vals, hvals, r, hr, s, hs, -⟩ := h
    simp [read, readReg, hvals, hr, hs]
  case p0x8 =>
    simp only [Asm.p0x8, bind_eq_ok] at h
    obtain ⟨vals, hvals, p, hp, -⟩ := h
    simp [read, readDistance, hvals, hp]
  case f8x2n0x8 =>
    simp only [Asm.f8x2n0x8, bind_eq_ok] at h
    obtain ⟨vals, hvals, n, hn, f, hf, -⟩ := h
    simp [read, readDistance, readNum, hvals, hn, hf]
  case r8x3d3x5b0x3 =>
    unfold Asm.r8x3d3x5b0x3 at h
    cases hargs : displacementArgs args with
    | none => rw [hargs] at h; cases h
    | some found =>
        simp only [hargs, bind_eq_ok] at h
        obtain ⟨r, hr, d, hd, b, hb, -⟩ := h
        simp [read, readReg, readNum, hargs, hr, hd, hb]

theorem Opcode.instr_meaning {L : Type} {op : Opcode} {ops : Operands L} {i : Instr L}
    (h : op.instr ops = some i) : (op.meaning ops).1.instr (op.meaning ops).2 = some i := by
  cases op <;> cases ops <;> first | exact h | cases h

theorem disassemble_binary {L : Type} {place : List Char → Option L} {distance : L → Int}
    {context : Context} (hplace : ∀ arg l n, place arg = some l →
      numericArgOrLabel arg context = .ok n → n = distance l)
    {instruction : List Char × List Char} {op : Opcode} {ops : Operands L} {word : Code}
    (hop : Opcode.ofName instruction.1 = some op)
    (hops : op.argFn.read place instruction.2 = some ops)
    (h : binary true context instruction = .ok word) :
    disassemble word = some (op.meaning (ops.map distance)) := by
  obtain ⟨op', hop', hword⟩ := operation_binary h
  obtain rfl := Option.some.inj (hop.symm.trans hop')
  unfold binary at h
  simp only [hop, if_true] at h
  unfold disassemble
  rw [hword]
  cases hbits : op.argFn.mangle instruction.2 context with
  | error e => rw [hbits] at h; cases h
  | ok bits =>
      rw [hbits] at h
      obtain rfl := Except.ok.inj h
      by_cases hsame : op.canonical = op
      · rw [hsame, Option.map_some, ArgFn.operands_or hplace hops hbits op.base_and_free]
        cases op <;> first | rfl | contradiction
      · have hnoargs : op.argFn = .noargs := by
          cases op <;> first | rfl | exact absurd rfl hsame
        rw [hnoargs] at hbits
        obtain rfl := noargs_eq hbits
        cases op <;> first | exact absurd rfl hsame | rfl

theorem decode_eq (x : Code) : decode x = (disassemble x).bind fun q => q.1.instr q.2 := by
  unfold decode disassemble
  cases operation Opcode.pattern Opcode.table x <;> rfl

/-- A line is read back from its word, with distances for labels. -/
theorem decode_binary {context : Context} {instruction : List Char × List Char} {word : Code}
    {i : Instr (List Char)} (hread : readInstr instruction = some i)
    (h : binary true context instruction = .ok word) :
    decode word = some (i.relabel context.distance) := by
  unfold readInstr at hread
  simp only [Option.bind_eq_bind, Option.bind_eq_some_iff] at hread
  obtain ⟨op, hop, ops, hops, hi⟩ := hread
  have hword := disassemble_binary (fun _ _ _ hlabel hn => readLabel_eq hlabel hn) hop hops h
  have hmeaning : op.instr (ops.map context.distance) = some (i.relabel context.distance) := by
    rw [Opcode.instr_map, hi, Option.map_some]
  rw [decode_eq, hword, Option.bind_some, Opcode.instr_meaning hmeaning]

theorem Operands.map_id {L : Type} (ops : Operands L) : ops.map id = ops := by
  cases ops <;> rfl

theorem asked_of_binary {context : Context} {instruction : List Char × List Char} {word : Code}
    (h : binary true context instruction = .ok word) :
    ∃ op ops, asked context instruction = some (op, ops) ∧ disassemble word = some (op, ops) := by
  obtain ⟨op, hop, -⟩ := operation_binary h
  have hmangle : ∃ bits, op.argFn.mangle instruction.2 context = .ok bits := by
    unfold binary at h
    simp only [hop, if_true] at h
    cases hbits : op.argFn.mangle instruction.2 context with
    | error e => rw [hbits] at h; cases h
    | ok bits => exact ⟨bits, rfl⟩
  obtain ⟨bits, hbits⟩ := hmangle
  obtain ⟨ops, hops⟩ := ArgFn.read_of_mangle hbits
  have hplace : ∀ arg l n, readDistance context arg = some l →
      numericArgOrLabel arg context = .ok n → n = id l := by
    intro arg l n hl hn
    rw [readDistance, hn] at hl
    exact Option.some.inj hl
  refine ⟨_, _, ?_, disassemble_binary hplace hop hops h⟩
  simp only [asked, hop, hops, Operands.map_id, Option.bind_eq_bind, Option.bind_some]
  rfl

/-- Two lines have the same word only if they ask for the same of the engine. -/
theorem binary_injective {context context' : Context}
    {instruction instruction' : List Char × List Char} {word : Code}
    (h : binary true context instruction = .ok word)
    (h' : binary true context' instruction' = .ok word) :
    ∃ op ops, asked context instruction = some (op, ops) ∧
      asked context' instruction' = some (op, ops) := by
  obtain ⟨op, ops, hasked, hword⟩ := asked_of_binary h
  obtain ⟨op', ops', hasked', hword'⟩ := asked_of_binary h'
  obtain ⟨rfl, rfl⟩ := Prod.mk.inj (Option.some.inj (hword'.symm.trans hword))
  exact ⟨_, _, hasked, hasked'⟩

/-- Branches to a label behind and to another ahead, by the same distance. -/
theorem binary_injective_apart :
    ∃ op ops,
      asked ⟨[("again".toList, 3)], 7⟩ ("bdf".toList, "again".toList) = some (op, ops) ∧
        asked ⟨[("home".toList, 0)], 4⟩ ("bdf".toList, "home".toList) = some (op, ops) := by
  have hagain : binary true ⟨[("again".toList, 3)], 7⟩ ("bdf".toList, "again".toList) =
      .ok 0x7ffb := by
    decide +kernel
  have hhome : binary true ⟨[("home".toList, 0)], 4⟩ ("bdf".toList, "home".toList) =
      .ok 0x7ffb := by
    decide +kernel
  exact binary_injective hagain hhome

end Glowforge.Asm
