import Glowforge.Foundation.Bits
import Glowforge.Foundation.Engine
import Mathlib.Logic.Function.Basic

/-! The instructions of the SDMA engine that the pulse script uses, with the
meaning the script's own comments give them. Control flow is by label: a block is
the instructions between one label and the next. -/
namespace Glowforge.Sdma
open Foundation

abbrev Word := BitVec 32
abbrev Byte := BitVec 8

inductive Reg where
  | r0 | r1 | r2 | r3 | r4 | r5 | r6 | r7
  deriving DecidableEq, Repr

inductive Instr (L : Type) where
  | ldi (r : Reg) (i : Byte)
  | mov (r s : Reg)
  | add (r s : Reg)
  | and (r s : Reg)
  | andn (r s : Reg)
  | addi (r : Reg) (i : Byte)
  | subi (r : Reg) (i : Byte)
  | andi (r : Reg) (i : Byte)
  | xori (r : Reg) (i : Byte)
  | bseti (r : Reg) (n : Nat)
  | bclri (r : Reg) (n : Nat)
  | btsti (r : Reg) (n : Nat)
  | cmpeq (r s : Reg)
  | cmpeqi (r : Reg) (i : Byte)
  | ld (r b : Reg) (d : Word)
  | st (r b : Reg) (d : Word)
  | ldf (r : Reg) (u : Byte)
  | stf (r : Reg) (u : Byte)
  | bt (l : L)
  | bf (l : L)
  | loop (l : L) (f : Nat)
  | done (j : Nat)
  | notify (j : Nat)
  deriving DecidableEq, Repr

/-- What the engine does to its surroundings: byte reads through the burst unit,
32-bit writes through either unit, and host interrupts. -/
inductive Event where
  | read (addr : Word) (byte : Byte)
  | write (addr value : Word)
  | notify (j : Nat)
  deriving DecidableEq, Repr

/-- The engine's registers, its data memory `dm` (the channel contexts) and the
system memory `mem` it reads pulse bytes from. -/
structure Machine where
  r0 : Word
  r1 : Word
  r2 : Word
  r3 : Word
  r4 : Word
  r5 : Word
  r6 : Word
  r7 : Word
  t : Bool
  pda : Word
  mda : Word
  msa : Word
  dm : Word → Word
  mem : Word → Byte

namespace Machine

def get (m : Machine) : Reg → Word
  | .r0 => m.r0
  | .r1 => m.r1
  | .r2 => m.r2
  | .r3 => m.r3
  | .r4 => m.r4
  | .r5 => m.r5
  | .r6 => m.r6
  | .r7 => m.r7

def set (m : Machine) (r : Reg) (v : Word) : Machine :=
  match r with
  | .r0 => { m with r0 := v }
  | .r1 => { m with r1 := v }
  | .r2 => { m with r2 := v }
  | .r3 => { m with r3 := v }
  | .r4 => { m with r4 := v }
  | .r5 => { m with r5 := v }
  | .r6 => { m with r6 := v }
  | .r7 => { m with r7 := v }

/-- Arithmetic leaves in T whether the result was zero. -/
def setFlagged (m : Machine) (r : Reg) (v : Word) : Machine :=
  { m.set r v with t := v == 0 }

/-- Word `d` of the channel context the script addresses through r7. -/
def word (m : Machine) (d : Word) : Word :=
  m.dm (m.r7 + d)

def setWord (m : Machine) (d v : Word) : Machine :=
  { m with dm := Function.update m.dm (m.r7 + d) v }

end Machine

/-- The data-path instructions; control flow is in `step`. -/
def Instr.exec {L : Type} (i : Instr L) (m : Machine) : List Event × Machine :=
  match i with
  | .ldi r i => ([], m.set r (i.zeroExtend 32))
  | .mov r s => ([], m.set r (m.get s))
  | .add r s => ([], m.setFlagged r (m.get r + m.get s))
  | .and r s => ([], m.setFlagged r (m.get r &&& m.get s))
  | .andn r s => ([], m.setFlagged r (m.get r &&& ~~~(m.get s)))
  | .addi r i => ([], m.setFlagged r (m.get r + i.zeroExtend 32))
  | .subi r i => ([], m.setFlagged r (m.get r - i.zeroExtend 32))
  | .andi r i => ([], m.setFlagged r (m.get r &&& i.zeroExtend 32))
  | .xori r i => ([], m.setFlagged r (m.get r ^^^ i.zeroExtend 32))
  | .bseti r n => ([], m.set r (raise (m.get r) n))
  | .bclri r n => ([], m.set r (lower (m.get r) n))
  | .btsti r n => ([], { m with t := bit (m.get r) n })
  | .cmpeq r s => ([], { m with t := m.get r == m.get s })
  | .cmpeqi r i => ([], { m with t := m.get r == i.zeroExtend 32 })
  | .ld r b d => ([], m.set r (m.dm (m.get b + d)))
  | .st r b d => ([], { m with dm := Function.update m.dm (m.get b + d) (m.get r) })
  | .ldf r u =>
      if u = 0x09 then ([.read m.msa (m.mem m.msa)], m.set r ((m.mem m.msa).zeroExtend 32))
      else if u = 0xd0 then ([], m.set r m.pda)
      else if u = 0x04 then ([], m.set r m.mda)
      else ([], m)
  | .stf r u =>
      if u = 0x10 then ([], { m with msa := m.get r })
      else if u = 0x14 then ([], { m with mda := m.get r })
      else if u = 0xd3 then ([], { m with pda := m.get r })
      else if u = 0xc8 then ([.write m.pda (m.get r)], m)
      else if u = 0x2b then ([.write m.mda (m.get r)], m)
      else ([], m)
  | .notify j => ([.notify j], m)
  | .bt _ | .bf _ | .loop _ _ | .done _ => ([], m)

/-- The body of a hardware loop: straight-line code, run `n` times. -/
def repeatBody {L : Type} (body : List (Instr L)) : Nat → Machine → List Event × Machine
  | 0, m => ([], m)
  | n + 1, m =>
      let once := body.foldl (fun acc i =>
        let r := i.exec acc.2
        (acc.1 ++ r.1, r.2)) ([], m)
      let rest := repeatBody body n once.2
      (once.1 ++ rest.1, rest.2)

structure Program (L : Type) where
  block : L → List (Instr L)
  next : L → Option L

/-- A program counter is a label and the instructions left of its block. -/
structure Config (L : Type) where
  here : L
  rest : List (Instr L)
  m : Machine

def Program.goto {L : Type} (P : Program L) (l : L) (m : Machine) : Config L :=
  ⟨l, P.block l, m⟩

def Program.step {L : Type} (P : Program L) (c : Config L) : Option (Signal Event (Config L)) :=
  match c.rest with
  | [] => (P.next c.here).map fun l => .next [] (P.goto l c.m)
  | .bt l :: rest => some (.next [] (if c.m.t then P.goto l c.m else { c with rest := rest }))
  | .bf l :: rest => some (.next [] (if c.m.t then { c with rest := rest } else P.goto l c.m))
  | .loop l _ :: body =>
      let r := repeatBody body c.m.r0.toNat c.m
      some (.next r.1 (P.goto l { r.2 with r0 := 0 }))
  | .done _ :: rest => some (.yield { c with rest := rest })
  | i :: rest =>
      let r := i.exec c.m
      some (.next r.1 ⟨c.here, rest, r.2⟩)

end Glowforge.Sdma
