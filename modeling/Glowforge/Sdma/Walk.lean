import Glowforge.Foundation.RingIndex
import Glowforge.Sdma.Player
import Mathlib.Algebra.Group.Basic
import Mathlib.Data.BitVec

/-! Which ring cells the script reads: a run steps its head through the indices one
direction at a time, reading each cell once, until the next one is the tail's. -/
namespace Glowforge.Sdma
open Foundation

def Event.byteRead : Event → Option (Word × Byte)
  | .read addr b => some (addr, b)
  | _ => none

def reads (es : List Event) : List (Word × Byte) := es.filterMap Event.byteRead

@[simp] theorem reads_append (es fs : List Event) : reads (es ++ fs) = reads es ++ reads fs :=
  List.filterMap_append

namespace Player

def cellAddress (p : Player) (i : Word) : Word := (i &&& p.mask) + p.base

def cell (p : Player) (i : Word) : Byte := p.mem (p.cellAddress i)

def cells (p : Player) (n : Nat) : List (Word × Byte) :=
  (List.range n).map fun j =>
    (p.cellAddress (p.head + j • p.dir), p.cell (p.head + j • p.dir))

theorem cell_of_setup {p q : Player} (h : q.setup = p.setup) :
    q.cellAddress = p.cellAddress ∧ q.cell = p.cell := by
  have hmask : q.mask = p.mask := congrArg Setup.mask h
  have hbase : q.base = p.base := congrArg Setup.base h
  have hmem : q.mem = p.mem := congrArg Setup.mem h
  have haddr : q.cellAddress = p.cellAddress := by
    funext i
    rw [cellAddress, cellAddress, hmask, hbase]
  refine ⟨haddr, ?_⟩
  funext i
  rw [cell, cell, haddr, hmem]

theorem cells_succ {p q : Player} (hsetup : q.setup = p.setup) (hdir : q.dir = p.dir)
    (hhead : q.head = p.head + p.dir) (n : Nat) :
    p.cells (n + 1) = (p.address, p.pulse) :: q.cells n := by
  obtain ⟨haddr, hcell⟩ := cell_of_setup hsetup
  unfold cells
  rw [List.range_succ_eq_map, List.map_cons, List.map_map, zero_nsmul, add_zero, haddr, hcell]
  refine List.cons_eq_cons.mpr ⟨rfl, ?_⟩
  apply List.map_congr_left
  intro j _
  rw [hhead, hdir, add_assoc, ← succ_nsmul']
  rfl

private theorem reads_actOn (p : Player) : reads p.actOn.1 = [] := by
  unfold actOn power motion
  split
  · split
    · rfl
    · split <;> rfl
  · rfl

private theorem reads_endbyte (p : Player) : reads p.endbyte.1 = [] := by
  obtain ⟨w, i, -, ⟨h, -⟩ | h⟩ := endbyte_cases p <;> rw [h] <;> rfl

theorem reads_consume (p : Player) : reads p.consume.1 = [(p.address, p.pulse)] := by
  have h : p.consume.1 = [.read p.address p.pulse] ++ (p.actOn.1 ++ p.actOn.2.endbyte.1) := rfl
  rw [h, reads_append, reads_append, reads_actOn, reads_endbyte]
  rfl

theorem reads_park (p : Player) : reads p.park.1 = [] := by
  unfold park
  simp only
  split
  · split <;> rfl
  · rfl

/-- What playing `n` bytes has read, and where it leaves the head. -/
structure Walked (n : Nat) (p p' : Player) (es : List Event) : Prop where
  setup : p'.setup = p.setup
  head : p'.head = p.head + n • p.dir
  dir : p'.dir = p.dir ∨ p'.dir = 0
  moving : n ≠ 0 → p.dir ≠ 0
  room : ∀ j < n, (p.head + j • p.dir) &&& p.mask ≠ p.tail &&& p.mask
  reads : reads es = p.cells n

theorem Drains.walked {n : Nat} {p p' : Player} {es : List Event} {ph : Phase}
    (h : Drains n p es ph p') : Walked n p p' es := by
  induction h with
  | @park p hidle =>
      refine ⟨park_setup p, ?_, .inr (park_dir p), by simp, by simp, reads_park p⟩
      rw [park_head, zero_nsmul, add_zero]
  | @last p hbusy hlast =>
      obtain ⟨hmoving, -, hmeet⟩ := not_idle_iff.mp hbusy
      refine ⟨consume_setup p, ?_, .inl (consume_dir p), fun _ => hmoving, ?_, ?_⟩
      · rw [one_nsmul]
        exact consume_head p
      · intro j hj
        obtain rfl := Nat.lt_one_iff.mp hj
        rwa [zero_nsmul, add_zero]
      · have hone := cells_succ (consume_setup p) (consume_dir p) (consume_head p) 0
        exact (reads_consume p).trans hone.symm
  | @more n p p' es ph hbusy hmore rest ih =>
      obtain ⟨hmoving, -, hmeet⟩ := not_idle_iff.mp hbusy
      have hsetup : p.consume.2.settle.setup = p.setup := consume_setup p
      have hhead : p.consume.2.settle.head = p.head + p.dir := consume_head p
      have hdir : p.consume.2.settle.dir = p.dir := consume_dir p
      have hmask : p.consume.2.settle.mask = p.mask := congrArg Setup.mask hsetup
      have htail : p.consume.2.settle.tail = p.tail := congrArg Setup.tail hsetup
      refine ⟨ih.setup.trans hsetup, ?_, ?_, fun _ => hmoving, ?_, ?_⟩
      · rw [ih.head, hhead, hdir, succ_nsmul', add_assoc]
      · rw [← hdir]
        exact ih.dir
      · intro j hj
        cases j with
        | zero => rwa [zero_nsmul, add_zero]
        | succ j =>
            have h := ih.room j (Nat.lt_of_succ_lt_succ hj)
            rwa [hhead, hdir, hmask, htail, add_assoc, ← succ_nsmul'] at h
      · rw [reads_append, reads_consume, ih.reads, cells_succ hsetup hdir hhead]
        rfl

theorem Tick.walked {n : Nat} {ph ph' : Phase} {p p' : Player} {es : List Event}
    (h : Tick n ph p es ph' p') : Walked n p p' es := by
  cases h with
  | restart _ => exact ⟨rfl, by simp, .inl rfl, by simp, by simp, rfl⟩
  | play hdrains =>
      have h := hdrains.walked
      exact ⟨h.setup, h.head, h.dir, h.moving, h.room, h.reads⟩

theorem Drains.meets {n : Nat} {p p' : Player} {es : List Event} {ph : Phase}
    (h : Drains n p es ph p') (hran : p.dir ≠ 0) (hparked : p'.dir = 0) :
    p.base = 0 ∨ p'.head &&& p.mask = p.tail &&& p.mask := by
  induction h with
  | @park p hidle =>
      rcases hidle with hzero | hbase | hmeet
      · exact absurd hzero hran
      · exact .inl hbase
      · rw [park_head]
        exact .inr hmeet
  | @last p hbusy hlast => exact absurd ((consume_dir p).symm.trans hparked) hran
  | @more n p p' es ph hbusy hmore rest ih =>
      have hsetup : p.consume.2.settle.setup = p.setup := consume_setup p
      have hmask : p.consume.2.settle.mask = p.mask := congrArg Setup.mask hsetup
      have htail : p.consume.2.settle.tail = p.tail := congrArg Setup.tail hsetup
      have hbase : p.consume.2.settle.base = p.base := congrArg Setup.base hsetup
      have hdir : p.consume.2.settle.dir = p.dir := consume_dir p
      have hrest := ih (by rwa [hdir]) hparked
      rwa [hmask, htail, hbase] at hrest

theorem Tick.head_eq_tail {k n : Nat} {ph ph' : Phase} {p p' : Player} {es : List Event}
    (h : Tick n ph p es ph' p') (hring : IsMask k p.mask) (hbase : p.base ≠ 0)
    (hdir : p.dir = 1) (hparked : p'.dir = 0) (hround : (p.tail - p.head).toNat < 2 ^ k) :
    p'.head = p.tail := by
  have hran : p.dir ≠ 0 := by
    rw [hdir]
    decide
  have hwalk := h.walked
  have hmeet : p'.head &&& p.mask = p.tail &&& p.mask := by
    cases h with
    | restart hph => exact absurd hparked hran
    | play hdrains => exact (hdrains.meets hran hparked).resolve_left hbase
  have hhead : p'.head = p.head + (n : Word) := by
    rw [hwalk.head, hdir, nsmul_one]
  have hend : p.head + ((p.tail - p.head).toNat : Word) = p.tail := by
    rw [natCast_toNat, add_sub_cancel]
  have hsize := hring.size_lt
  have hle : n ≤ (p.tail - p.head).toNat := by
    by_contra hfar
    have hroom := hwalk.room (p.tail - p.head).toNat (by omega)
    rw [hdir, nsmul_one, hend] at hroom
    exact hroom rfl
  have hrest : (p.tail - p'.head).toNat < 2 ^ k := by
    have hsub : p.tail - p'.head = (((p.tail - p.head).toNat - n : Nat) : Word) := by
      rw [Nat.cast_sub hle, hhead, natCast_toNat, sub_sub]
    rw [hsub, BitVec.natCast_eq_ofNat, BitVec.toNat_ofNat, Nat.mod_eq_of_lt (by omega)]
    omega
  exact ((hring.and_eq_iff_of_lt hrest).mp hmeet.symm).symm

/-- A tick reads nothing exactly when the script only restarts, or has nothing to play. -/
theorem Tick.reads_eq_nil_iff {n : Nat} {ph ph' : Phase} {p p' : Player} {es : List Event}
    (h : Tick n ph p es ph' p') : Sdma.reads es = [] ↔ ph ≠ .ready ∨ p.idle := by
  have hnil : ∀ {m : Nat}, p.cells m = [] ↔ m = 0 := by
    intro m
    simp [cells]
  rw [h.walked.reads, hnil]
  cases h with
  | restart hph => simp [hph]
  | play hdrains =>
      cases hdrains with
      | park hidle => simp [hidle]
      | last hbusy _ => simp [hbusy]
      | more hbusy _ _ => simp [hbusy]

end Player

end Glowforge.Sdma
