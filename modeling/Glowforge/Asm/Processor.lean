import Glowforge.Asm.Listing
import Glowforge.Foundation.Stuttering
import Mathlib.Tactic.FinCases

/-! The engine as it runs words: a program counter into program memory, a word decoded at
each step. It stands for the labelled program whose source the words were assembled from:
falling through to the next block is all it leaves out. -/
namespace Glowforge.Asm
open Foundation Sdma Engine

abbrev Address := BitVec 14

@[ext] structure Processor where
  pc : Address
  m : Machine

def straight (fetch : Address → Code) : Nat → Address → Option (List (Instr Int))
  | 0, _ => some []
  | n + 1, pc => do
      let i ← decode (fetch pc)
      let rest ← straight fetch n (pc + 1)
      some (i :: rest)

/-- The place `d` words from the next one. -/
def Processor.jump (p : Processor) (d : Int) : Address := p.pc + 1 + BitVec.ofInt 14 d

def Processor.step (fetch : Address → Code) (p : Processor) : Option (Signal Event Processor) :=
  match decode (fetch p.pc) with
  | none => none
  | some (.bt d) => some (.next [] ⟨if p.m.t then p.jump d else p.pc + 1, p.m⟩)
  | some (.bf d) => some (.next [] ⟨if p.m.t then p.pc + 1 else p.jump d, p.m⟩)
  | some (.loop d _) =>
      (straight fetch d.toNat (p.pc + 1)).map fun body =>
        let r := repeatBody body p.m.r0.toNat p.m
        .next r.1 ⟨p.jump d, { r.2 with r0 := 0 }⟩
  | some (.done _) => some (.yield ⟨p.pc + 1, p.m⟩)
  | some i =>
      let r := i.exec p.m
      some (.next r.1 ⟨p.pc + 1, r.2⟩)

/-- The words are in program memory from `origin` on. -/
def Holds (fetch : Address → Code) (origin : Address) (code : List Code) : Prop :=
  ∀ k word, code[k]? = some word → fetch (origin + BitVec.ofNat 14 k) = word

theorem jump_eq (origin : Address) (a k : Nat) :
    origin + BitVec.ofNat 14 k + 1 + BitVec.ofInt 14 ((a : Int) - (k + 1 : Nat)) =
      origin + BitVec.ofNat 14 a := by
  have hsub : BitVec.ofInt 14 ((a : Int) - (k + 1 : Nat)) =
      BitVec.ofNat 14 a - BitVec.ofNat 14 (k + 1) := by
    rw [sub_eq_add_neg, BitVec.ofInt_add, BitVec.ofInt_neg, BitVec.ofInt_natCast,
      BitVec.ofInt_natCast, sub_eq_add_neg]
  rw [hsub, BitVec.ofNat_add]
  bv_omega

@[simp] theorem exec_relabel {L M : Type} (g : L → M) (i : Instr L) (m : Machine) :
    (i.relabel g).exec m = i.exec m := by
  cases i <;> rfl

theorem repeatBody_congr {L M : Type} {body : List (Instr L)} {body' : List (Instr M)}
    (h : List.Forall₂ (fun i j => ∀ m, Instr.exec i m = Instr.exec j m) body body') (n : Nat)
    (m : Machine) : repeatBody body n m = repeatBody body' n m := by
  have honce (acc : List Event × Machine) :
      body.foldl (fun acc i => let r := i.exec acc.2; (acc.1 ++ r.1, r.2)) acc =
        body'.foldl (fun acc i => let r := i.exec acc.2; (acc.1 ++ r.1, r.2)) acc := by
    induction h generalizing acc with
    | nil => rfl
    | cons hhead _ ih =>
        rw [List.foldl_cons, List.foldl_cons, hhead]
        exact ih _
  induction n generalizing m with
  | zero => rfl
  | succ n ih =>
      unfold repeatBody
      simp only [honce, ih]

section Simulation

variable {L : Type} [DecidableEq L] {lines : List Line} {P : Program L} {order : List L}
  {name : L → List Char} {code : List Code} {fetch : Address → Code} {origin : Address}

/-- The program counter is where the block goes on. -/
structure At (P : Program L) (order : List L) (origin : Address) (c : Config L) (p : Processor) :
    Prop where
  machine : p.m = c.m
  place : ∃ before, P.block c.here = before ++ c.rest ∧
    p.pc = origin + BitVec.ofNat 14 (address P order c.here + before.length)

theorem at_goto (P : Program L) (order : List L) (origin : Address) (l : L) (m : Machine) :
    At P order origin (P.goto l m) ⟨origin + BitVec.ofNat 14 (address P order l), m⟩ :=
  ⟨rfl, [], rfl, rfl⟩

theorem fetch_eq (hlists : Lists lines P order name) (hcode : Assembled lines code)
    (hholds : Holds fetch origin code) {l : L} {before rest : List (Instr L)} {i : Instr L}
    (hblock : P.block l = before ++ i :: rest) :
    decode (fetch (origin + BitVec.ofNat 14 (address P order l + before.length))) =
      some (i.relabel (displacement P order (address P order l + before.length))) := by
  obtain ⟨word, hword, hdecode⟩ := hlists.word hcode hblock
  rw [hholds _ word hword, hdecode]

theorem straight_eq (hlists : Lists lines P order name) (hcode : Assembled lines code)
    (hholds : Holds fetch origin code) {l : L} {before body : List (Instr L)}
    (hblock : P.block l = before ++ body) :
    ∃ body', straight fetch body.length
        (origin + BitVec.ofNat 14 (address P order l + before.length)) = some body' ∧
      List.Forall₂ (fun i j => ∀ m, Instr.exec i m = Instr.exec j m) body' body := by
  induction body generalizing before with
  | nil => exact ⟨[], rfl, .nil⟩
  | cons i body ih =>
      obtain ⟨i', hhere, hexec⟩ : ∃ i', decode (fetch (origin + BitVec.ofNat 14
          (address P order l + before.length))) = some i' ∧ ∀ m, i'.exec m = i.exec m :=
        ⟨_, fetch_eq hlists hcode hholds hblock, exec_relabel _ i⟩
      have hblock' : P.block l = (before ++ [i]) ++ body := by simpa using hblock
      obtain ⟨body', hbody', hsame⟩ := ih hblock'
      rw [List.length_append, List.length_singleton, ← Nat.add_assoc, BitVec.ofNat_add,
        ← add_assoc] at hbody'
      refine ⟨i' :: body', ?_, .cons hexec hsame⟩
      rw [List.length_cons, straight, hhere, show (1 : Address) = BitVec.ofNat 14 1 from rfl]
      simp only [Option.bind_eq_bind, Option.bind_some, hbody']

theorem At.after {c : Config L} {p : Processor} (h : At P order origin c p) {i : Instr L}
    {rest : List (Instr L)} (hrest : c.rest = i :: rest) (m : Machine) :
    At P order origin ⟨c.here, rest, m⟩ ⟨p.pc + 1, m⟩ := by
  obtain ⟨before, hblock, hpc⟩ := h.place
  refine ⟨rfl, before ++ [i], by rw [hblock, hrest, List.append_assoc]; rfl, ?_⟩
  rw [hpc, List.length_append, List.length_singleton, ← Nat.add_assoc, BitVec.ofNat_add _ 1,
    ← add_assoc]
  rfl

theorem At.jump {c : Config L} {p : Processor} {before : List (Instr L)}
    (hpc : p.pc = origin + BitVec.ofNat 14 (address P order c.here + before.length)) (l : L)
    (m : Machine) : At P order origin (P.goto l m)
      ⟨p.jump (displacement P order (address P order c.here + before.length) l), m⟩ := by
  rw [Processor.jump, hpc, displacement, jump_eq]
  exact at_goto P order origin l m

theorem refines (hlists : Lists lines P order name) (hcode : Assembled lines code)
    (hholds : Holds fetch origin code) :
    Refines P.step (Processor.step fetch) (At P order origin) := by
  intro c p sig hat hstep
  obtain ⟨hm, before, hblock, hpc⟩ := hat
  unfold Program.step at hstep
  cases hrest : c.rest with
  | nil =>
      rw [hrest] at hstep
      obtain ⟨l, hnext, rfl⟩ := Option.map_eq_some_iff.mp hstep
      refine .silent ⟨hm, [], rfl, ?_⟩
      rw [hrest, List.append_nil] at hblock
      rw [hpc, Program.goto, hlists.address_next hnext, hblock, List.length_nil, Nat.add_zero]
  | cons i rest =>
      have hat : At P order origin c p := ⟨hm, before, hblock, hpc⟩
      have hafter := hat.after hrest
      have hword := fetch_eq hlists hcode hholds (hrest ▸ hblock)
      rw [← hpc] at hword
      let distance := displacement P order (address P order c.here + before.length)
      rw [hrest] at hstep
      have hjump (l : L) (m : Machine) : At P order origin (P.goto l m) _ := At.jump hpc l m
      have hplain {out : List Event} {m : Machine}
          (hsig : sig = .next out ⟨c.here, rest, m⟩)
          (hgo : p.step fetch = some (.next out ⟨p.pc + 1, m⟩)) :
          Answers (Processor.step fetch) (At P order origin) p sig := by
        rw [hsig]
        exact .next hgo (hafter m)
      cases i with
      | bt l =>
          obtain rfl := Option.some.inj hstep
          have hgo : p.step fetch =
              some (.next [] ⟨if p.m.t then p.jump (distance l) else p.pc + 1, p.m⟩) := by
            rw [Processor.step, hword]
            rfl
          refine .next hgo ?_
          rw [hm]
          cases c.m.t
          · exact hafter c.m
          · exact hjump l c.m
      | bf l =>
          obtain rfl := Option.some.inj hstep
          have hgo : p.step fetch =
              some (.next [] ⟨if p.m.t then p.pc + 1 else p.jump (distance l), p.m⟩) := by
            rw [Processor.step, hword]
            rfl
          refine .next hgo ?_
          rw [hm]
          cases c.m.t
          · exact hjump l c.m
          · exact hafter c.m
      | loop l f =>
          rw [hrest] at hblock
          have hnext : P.next c.here = some l := hlists.loops c.here l f (by simp [hblock])
          have hend := hlists.address_next hnext
          rw [hblock, List.length_append, List.length_cons] at hend
          -- the loop ends where the next block starts
          have hlength : distance l = rest.length := by
            simp only [distance, displacement]
            omega
          have hbody : P.block c.here = (before ++ [.loop l f]) ++ rest := by simp [hblock]
          obtain ⟨body, hbody, hsame⟩ := straight_eq hlists hcode hholds hbody
          rw [List.length_append, List.length_singleton, ← Nat.add_assoc, BitVec.ofNat_add _ 1,
            ← add_assoc, ← hpc] at hbody
          have hgo : p.step fetch = some (.next (repeatBody rest c.m.r0.toNat c.m).1
              ⟨p.jump (distance l), { (repeatBody rest c.m.r0.toNat c.m).2 with r0 := 0 }⟩) := by
            rw [Processor.step, hword]
            simp only [Instr.relabel]
            change (straight fetch (distance l).toNat (p.pc + 1)).map _ = _
            rw [hlength, Int.toNat_natCast, show (1 : Address) = 1#14 from rfl, hbody, Option.map_some,
              hm, repeatBody_congr hsame, ← hlength]
          obtain rfl := Option.some.inj hstep
          exact .next hgo (hjump l _)
      | done j =>
          obtain rfl := Option.some.inj hstep
          have hgo : p.step fetch = some (.yield ⟨p.pc + 1, p.m⟩) := by
            rw [Processor.step, hword]
            rfl
          refine .yield hgo ?_
          rw [hm]
          exact hafter c.m
      | _ =>
          refine hplain (Option.some.inj hstep).symm ?_
          rw [Processor.step, hword, hm]
          rfl

/-- The code of a program's source runs as the program does: from where it is, each turn puts
out the same and ends where the program's does, in as many steps at most. -/
theorem exec_assembled {source : List (List Char)} (hcode : assemble source = .ok code)
    (hlists : Lists (source.map parseLine) P order name) (hholds : Holds fetch origin code)
    {c : Config L} {p : Processor} (hat : At P order origin c p) {fuel : Nat}
    {r : List Event × Config L} (h : exec P.step fuel c = some r) :
    ∃ p', exec (Processor.step fetch) fuel p = some (r.1, p') ∧ At P order origin r.2 p' :=
  exec_of_refines (refines hlists (assembled_of_assemble hcode) hholds) hat h

end Simulation

/-- Three turns of a loop, and a branch over what is left out after them. -/
private def threeTurns : Program (Fin 3) where
  block
    | 0 => [.ldi .r0 3, .loop 1 0, .addi .r1 2]
    | 1 => [.cmpeqi .r1 6, .bt 2, .notify 1]
    | 2 => [.notify 3, .done 4]
  next
    | 0 => some 1
    | 1 => some 2
    | 2 => none

private def threeTurnsName : Fin 3 → List Char
  | 0 => "start".toList
  | 1 => "check".toList
  | 2 => "over".toList

private def threeTurnsSource : List (List Char) :=
  ["start: ldi r0, 3".toList, "loop check, 0".toList, "addi r1, 2".toList,
    "check: cmpeqi r1, 6".toList, "bt over".toList, "notify 1".toList, "over: notify 3".toList,
    "done 4".toList]

private def threeTurnsCode : List Code :=
  [0x0803, 0x7801, 0x1902, 0x4906, 0x7d01, 0x0101, 0x0301, 0x0400]

private def cleared : Machine := ⟨0, 0, 0, 0, 0, 0, 0, 0, false, 0, 0, 0, fun _ => 0, fun _ => 0⟩

theorem exec_assembled_threeTurns :
    ∃ p', exec (Processor.step fun pc => threeTurnsCode.getD pc.toNat 0) 6 ⟨0, cleared⟩ =
        some ([.notify 3], p') ∧
      At threeTurns [0, 1, 2] 0 ⟨2, [], { cleared with r1 := 6, t := true }⟩ p' := by
  have hlists : Lists (threeTurnsSource.map parseLine) threeTurns [0, 1, 2] threeTurnsName := {
    complete := by decide
    nodup := by decide
    next := by decide
    last := by decide
    loops := by
      intro l l' f h
      fin_cases l
      · simp [threeTurns] at h
        rw [h.1]
        rfl
      · simp [threeTurns] at h
      · simp [threeTurns] at h
    injective := by decide
    reads := by decide +kernel }
  have hcode : assemble threeTurnsSource = .ok threeTurnsCode := by decide +kernel
  have hholds : Holds (fun pc => threeTurnsCode.getD pc.toNat 0) 0 threeTurnsCode := by
    intro k word h
    have hk : k < 8 := (List.getElem?_eq_some_iff.mp h).1
    have hpc : (0 + BitVec.ofNat 14 k).toNat = k := by
      rw [zero_add, BitVec.toNat_ofNat, Nat.mod_eq_of_lt (by omega)]
    simp only [hpc, List.getD_eq_getElem?_getD, h, Option.getD_some]
  have hat : At threeTurns [0, 1, 2] 0 (threeTurns.goto 0 cleared) ⟨0, cleared⟩ :=
    at_goto threeTurns [0, 1, 2] 0 0 cleared
  have hexec : exec threeTurns.step 6 (threeTurns.goto 0 cleared) =
      some ([.notify 3], ⟨2, [], { cleared with r1 := 6, t := true }⟩) := rfl
  exact exec_assembled hcode hlists hholds hat hexec

end Glowforge.Asm
