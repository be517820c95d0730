import Glowforge.Cnc.Transitions
import Glowforge.Sdma.Walk

/-! The indices of the ring count bytes: whatever happens to the transfers, the write
index and the byte total are the number of bytes taken since the last reset. -/
namespace Glowforge.Cnc
open Foundation Sdma

/-- The number of bytes the kfifo has taken since it was last reset. -/
def tally (n : Nat) : Obs → Nat
  | .queued data => n + data.length
  | .emptied => 0
  | _ => n

def enqueued (obs : List Obs) : Nat := obs.foldl tally 0

namespace Pulsebuf

def player (b : Pulsebuf) : Player := b.engine.m.player

def address (b : Pulsebuf) (i : Word) : Word := (i &&& b.fifo.mask) + b.phys

theorem address_setEngine (b : Pulsebuf) (c : Config Label) :
    address { b with engine := c } = b.address := rfl

/-- Host and script share one ring, of `2 ^ k` cells. -/
structure Shares (k : Nat) (b : Pulsebuf) : Prop where
  order : 20 ≤ k
  ring : IsMask k b.fifo.mask
  mask : b.player.mask = b.fifo.mask
  base : b.player.base = b.phys
  waits : ∃ ph : Player.Phase, ph.Waits b.engine

theorem Shares.size_toNat {k : Nat} {b : Pulsebuf} (h : b.Shares k) : b.fifo.size.toNat = 2 ^ k := by
  have hlt := h.ring.size_lt
  have hone : BitVec.toNat (1 : Word) = 1 := rfl
  rw [Kfifo.size, BitVec.toNat_add, h.ring.2, hone, Nat.sub_add_cancel (Nat.two_pow_pos k),
    Nat.mod_eq_of_lt hlt]

theorem Shares.avail_toNat {k : Nat} {b : Pulsebuf} (h : b.Shares k)
    (hle : (b.fifo.inIndex - b.fifo.outIndex).toNat ≤ 2 ^ k) :
    b.fifo.avail.toNat = 2 ^ k - (b.fifo.inIndex - b.fifo.outIndex).toNat := by
  have hsize := h.size_toNat
  rw [Kfifo.avail, BitVec.toNat_sub_of_le (BitVec.le_def.mpr (by rwa [hsize])), hsize]

theorem Shares.setEngine {k : Nat} {b : Pulsebuf} (h : b.Shares k) {c : Config Label}
    (hmask : c.m.player.mask = b.player.mask) (hbase : c.m.player.base = b.player.base)
    (hwaits : ∃ ph : Player.Phase, ph.Waits c) : Shares k { b with engine := c } :=
  ⟨h.order, h.ring, hmask.trans h.mask, hbase.trans h.base, hwaits⟩

theorem Shares.synced {k : Nat} {b b' : Pulsebuf} (h : b.Shares k) (hb : b' = b ∨ b' = b.synced) :
    b'.Shares k := by
  rcases hb with rfl | rfl
  · exact h
  · exact ⟨h.order, h.ring, h.mask, h.base, h.waits⟩

theorem player_store (b : Pulsebuf) (bs : List Byte) :
    (b.store bs).engine.m.player =
      { b.player with mem := storeRing b.phys b.fifo.mask b.fifo.inIndex bs b.player.mem } :=
  Sdma.player_store _ _

theorem Shares.store {k : Nat} {b : Pulsebuf} (h : b.Shares k) (bs : List Byte) :
    Shares k { b with engine := (b.store bs).engine } := by
  obtain ⟨ph, hw⟩ := h.waits
  exact h.setEngine rfl rfl ⟨ph, hw.withMachine rfl⟩

theorem player_publishTail (b : Pulsebuf) :
    b.publishTail.engine.m.player = { b.player with tail := b.fifo.inIndex } :=
  Sdma.player_publishTail _ _

theorem Shares.publishTail {k : Nat} {b : Pulsebuf} (h : b.Shares k) :
    Shares k { b with engine := b.publishTail.engine } := by
  obtain ⟨ph, hw⟩ := h.waits
  have hplayer := player_publishTail b
  refine h.setEngine ?_ ?_ ⟨ph, hw.withMachine rfl⟩
  · rw [hplayer]
  · rw [hplayer]

theorem player_setRegs (b : Pulsebuf) (o : CncRunOptions) :
    (b.setRegs o).m.player =
      b.player.start (if o.backward then b.backtrackDeadStop else b.fifo.inIndex) o.backward
        o.accelerate (o.numSteps.zeroExtend 32) :=
  player_start _ _ _ _ _

theorem player_setSomeRegs (b : Pulsebuf) (o : CncRunOptions) :
    (b.setSomeRegs o).m.player =
      { (b.setRegs o).m.player with inhibit := b.engine.m.word 20 } :=
  player_setInhibit _ _

theorem head_setRegs (b : Pulsebuf) (o : CncRunOptions) {c : Config Label}
    (hc : c = b.setRegs o ∨ c = b.setSomeRegs o) : c.m.player.head = b.player.head := by
  have hplayer := player_setRegs b o
  rcases hc with rfl | rfl
  · rw [hplayer, Player.start_head]
  · rw [player_setSomeRegs, hplayer, Player.start_head]

theorem mem_setRegs (b : Pulsebuf) (o : CncRunOptions) {c : Config Label}
    (hc : c = b.setRegs o ∨ c = b.setSomeRegs o) : c.m.player.mem = b.player.mem := by
  have hplayer := player_setRegs b o
  rcases hc with rfl | rfl
  · rw [hplayer, Player.start_mem]
  · rw [player_setSomeRegs, hplayer, Player.start_mem]

theorem Shares.setRegs {k : Nat} {b : Pulsebuf} (h : b.Shares k) (o : CncRunOptions)
    {c : Config Label} (hc : c = b.setRegs o ∨ c = b.setSomeRegs o) :
    Shares k { b with engine := c } := by
  obtain ⟨ph, hw⟩ := h.waits
  have hrun : ph.Waits (b.setRegs o) := hw.start _ _ _ _
  have hplayer := player_setRegs b o
  rcases hc with rfl | rfl
  · refine h.setEngine ?_ ?_ ⟨ph, hrun⟩
    · rw [hplayer, Player.start_mask]
    · rw [hplayer, Player.start_base]
  · have hsome := player_setSomeRegs b o
    refine h.setEngine ?_ ?_ ⟨ph, hrun.withMachine rfl⟩
    · rw [hsome, hplayer, Player.start_mask]
    · rw [hsome, hplayer, Player.start_base]

theorem Shares.tick {k fuel : Nat} {b : Pulsebuf} {es : List Event} {c : Config Label}
    (h : b.Shares k) (hexec : Engine.exec script.step fuel b.engine = some (es, c)) :
    Shares k { b with engine := c } := by
  obtain ⟨ph, hw⟩ := h.waits
  obtain ⟨n, ph', htick, hw'⟩ := tick_of_exec hw hexec
  have hsetup := htick.setup
  exact h.setEngine (congrArg Player.Setup.mask hsetup) (congrArg Player.Setup.base hsetup) ⟨ph', hw'⟩

theorem Shares.forget {k : Nat} {b : Pulsebuf} (h : b.Shares k) (data : Bool) :
    (b.forget data).Shares k := by
  cases data
  · exact h
  · exact ⟨h.order, h.ring, h.mask, h.base, h.waits⟩

theorem Shares.clear {k : Nat} {b : Pulsebuf} (h : b.Shares k) (data position : Bool) :
    Shares k { b with engine := b.engine.clear data position } := by
  obtain ⟨ph, hw⟩ := h.waits
  have hplayer := player_clear b.engine data position
  refine h.setEngine ?_ ?_ ⟨ph, hw.clear data position⟩
  · rw [hplayer, Player.clear_mask]
    rfl
  · rw [hplayer, Player.clear_base]
    rfl

end Pulsebuf

namespace Playback

theorem ringMbOrDefault_eq (ringMb : Nat) : ∃ j ≤ 10, ringMbOrDefault ringMb = 2 ^ j := by
  unfold ringMbOrDefault
  split
  · rename_i h
    obtain ⟨⟨hne, hand⟩, -, hmax⟩ := h
    obtain ⟨j, rfl⟩ := (Nat.and_sub_one_eq_zero_iff_isPowerOfTwo hne).mp hand
    refine ⟨j, ?_, rfl⟩
    exact (Nat.pow_le_pow_iff_right (by decide : 1 < 2)).mp (hmax.trans (by decide : 1024 ≤ 2 ^ 10))
  · exact ⟨5, by decide, rfl⟩

theorem shares_init (ringMb : Nat) (args : ScriptArgs) :
    ∃ k, (cncBufferInit ringMb args).Shares k := by
  obtain ⟨j, hj, hmb⟩ := ringMbOrDefault_eq ringMb
  refine ⟨20 + j, by omega, ⟨by omega, ?_⟩, rfl, rfl, .boot, waits_load _⟩
  have hsize : ringMbOrDefault ringMb * 2 ^ 20 = 2 ^ (20 + j) := by
    rw [hmb, ← Nat.pow_add, Nat.add_comm]
  have hlt : 2 ^ (20 + j) < 2 ^ 32 := Nat.pow_lt_pow_right (by decide) (by omega)
  have hpos := Nat.two_pow_pos (20 + j)
  have hone : BitVec.toNat (1 : Word) = 1 := rfl
  have hle : (1 : Word) ≤ BitVec.ofNat 32 (2 ^ (20 + j)) := by
    rw [BitVec.le_def, BitVec.toNat_ofNat, Nat.mod_eq_of_lt hlt]
    exact hpos
  change (BitVec.ofNat 32 (ringMbOrDefault ringMb * 2 ^ 20) - 1).toNat = 2 ^ (20 + j) - 1
  rw [hsize, BitVec.toNat_sub_of_le hle, BitVec.toNat_ofNat, Nat.mod_eq_of_lt hlt, hone]

structure Counted (k t : Nat) (s : Playback) : Prop where
  shares : s.buf.Shares k
  written : s.buf.fifo.inIndex = (t : Word)
  total : s.buf.totalBytes = (t : BitVec 64)
  asked : ∀ o, s.starting = some o → o.backward = true → o.numSteps ≠ 0
  idle : s.running = true → s.starting = none

theorem Counted.not_running {k t : Nat} {s : Playback} (h : Counted k t s) {o : CncRunOptions}
    (ho : s.starting = some o) : s.running = false := by
  by_contra hrun
  have hnone := h.idle (eq_true_of_ne_false hrun)
  rw [ho] at hnone
  cases hnone

theorem counted_probe (ringMb : Nat) (args : ScriptArgs) : ∃ k, Counted k 0 (probe ringMb args) := by
  obtain ⟨k, hshares⟩ := shares_init ringMb args
  refine ⟨k, hshares, rfl, rfl, ?_, ?_⟩
  · intro o h
    cases h
  · intro h
    cases h

theorem copy_indices {b : Pulsebuf} {t : Nat} (hin : b.fifo.inIndex = (t : Word))
    (htotal : b.totalBytes = (t : BitVec 64)) (data : List Byte) :
    b.fifo.inIndex + BitVec.ofNat 32 data.length = ((t + data.length : Nat) : Word) ∧
      b.totalBytes + BitVec.ofNat 64 data.length = ((t + data.length : Nat) : BitVec 64) := by
  rw [hin, htotal]
  push_cast
  exact ⟨rfl, rfl⟩

private theorem Counted.fetched {k t : Nat} {s : Playback} (h : Counted k t s) {buf : Pulsebuf}
    (hbuf : buf = s.buf ∨ buf = s.buf.synced) :
    buf.fifo.inIndex = (t : Word) ∧ buf.totalBytes = (t : BitVec 64) := by
  rcases hbuf with rfl | rfl
  · exact ⟨h.written, h.total⟩
  · exact ⟨h.written, h.total⟩

theorem Counted.effect {k t : Nat} {s s' : Playback} {a : Action} {obs : List Obs}
    (h : Counted k t s) (he : Effect s a obs s') : Counted k (obs.foldl tally t) s' := by
  cases he with
  | look freq rate hbuf hobs =>
      have hkeep : obs.foldl tally t = t := by
        rcases hobs with rfl | ⟨e, rfl⟩ <;> rfl
      rw [hkeep]
      obtain ⟨hin, htotal⟩ := h.fetched hbuf
      exact ⟨h.shares.synced hbuf, hin, htotal, h.asked, h.idle⟩
  | reserve data _ _ _ _ =>
      exact ⟨h.shares.synced (.inr rfl), h.written, h.total, h.asked, h.idle⟩
  | copy data _ _ hc =>
      obtain ⟨hin, htotal⟩ := copy_indices h.written h.total data
      have hshares := h.shares.store data
      subst hc
      refine ⟨?_, hin, htotal, h.asked, h.idle⟩
      exact ⟨hshares.order, hshares.ring, hshares.mask, hshares.base, hshares.waits⟩
  | rollback bs e _ _ hc _ =>
      subst hc
      exact ⟨h.shares.store bs, h.written, h.total, h.asked, h.idle⟩
  | publish data _ hc =>
      subst hc
      exact ⟨h.shares.publishTail, h.written, h.total, h.asked, h.idle⟩
  | unpublished _ _ => exact ⟨h.shares, h.written, h.total, h.asked, h.idle⟩
  | check o hidle _ _ hcall =>
      refine ⟨h.shares.synced (.inr rfl), h.written, h.total, ?_, ?_⟩
      · intro o' ho'
        cases ho'
        exact numSteps_ne_zero_of_options hcall
      · intro hrun
        exact absurd hrun (by simp [hidle])
  | giveUp e hbuf _ _ =>
      obtain ⟨hin, htotal⟩ := h.fetched hbuf
      exact ⟨h.shares.synced hbuf, hin, htotal, (fun _ ho => nomatch ho), fun _ => rfl⟩
  | abandon o e hbuf _ _ hc =>
      obtain ⟨hin, htotal⟩ := h.fetched hbuf
      exact ⟨(h.shares.synced hbuf).setRegs o hc, hin, htotal, (fun _ ho => nomatch ho), fun _ => rfl⟩
  | commit o hbuf _ _ _ _ hc =>
      obtain ⟨hin, htotal⟩ := h.fetched hbuf
      exact ⟨(h.shares.synced hbuf).setRegs o (.inl hc), hin, htotal, (fun _ ho => nomatch ho),
        fun _ => rfl⟩
  | tick _ _ hexec => exact ⟨h.shares.tick hexec, h.written, h.total, h.asked, h.idle⟩
  | stop => exact ⟨h.shares, h.written, h.total, h.asked, fun hr => nomatch hr⟩
  | wipe data position _ _ hc =>
      have hshares := (h.shares.clear data position).forget data
      subst hc
      cases data with
      | false => exact ⟨hshares, h.written, h.total, h.asked, h.idle⟩
      | true => exact ⟨hshares, rfl, rfl, h.asked, h.idle⟩
  | wipeFailed data e _ _ _ =>
      have hshares := h.shares.forget data
      cases data with
      | false => exact ⟨hshares, h.written, h.total, h.asked, h.idle⟩
      | true => exact ⟨hshares, rfl, rfl, h.asked, h.idle⟩

theorem counted_run {ringMb : Nat} {args : ScriptArgs} {as : List Action} {out : List Obs}
    {s : Playback} (h : System.execute step as (probe ringMb args) = some (out, s)) :
    ∃ k, Counted k (enqueued out) s := by
  obtain ⟨k, hinit⟩ := counted_probe ringMb args
  refine ⟨k, System.execute_gathers (I := Counted k) ?_ hinit (System.along_true as _) h⟩
  intro t s a r hs _ hstep
  exact hs.effect (step_effect hstep)

end Playback

end Glowforge.Cnc
