import Glowforge.Cnc.Progress
import Glowforge.Cnc.PulseFifo

/-! The writer's gap is the history floor. A write is admitted over a gap of 32 KiB that
stays unwritten behind it, so a job that is only played forward keeps at least the last
32 KiB it has played in the ring. -/
namespace Glowforge.Cnc
open Foundation Sdma

namespace Playback

def playedBytes (obs : List Obs) : Nat := obs.foldl playOn 0

/-- The gap behind the write index, and the gap a write in progress will leave. -/
structure Gapped (k t p : Nat) (s : Playback) : Prop where
  queued : ∃ q, Queued k t p q s
  gap : t + 2 ^ 15 ≤ p + 2 ^ k
  reserved : ∀ data, s.writer = some ⟨data, false⟩ → data.length ≤ 2 ^ k →
    t + data.length + 2 ^ 15 ≤ p + 2 ^ k

theorem gap_le {k : Nat} {b : Pulsebuf} (h : b.Shares k) : 2 ^ 15 ≤ 2 ^ k :=
  Nat.pow_le_pow_right (by decide) ((by decide : 15 ≤ 20).trans h.order)

theorem gapped_probe (ringMb : Nat) (args : ScriptArgs) :
    ∃ k, Gapped k 0 0 (probe ringMb args) := by
  obtain ⟨k, h⟩ := queued_probe ringMb args
  have hsize := gap_le h.shares
  refine ⟨k, ⟨[], h⟩, ?_, ?_⟩
  · omega
  · intro data hw
    cases hw

theorem Indexed.reserves {k t p n : Nat} {s : Playback} (h : Indexed k t p s)
    (hroom : s.Admits n) (hn : n ≤ 2 ^ k) : t + n + 2 ^ 15 ≤ p + 2 ^ k := by
  have hunplayed : (s.buf.synced.fifo.inIndex - s.buf.synced.fifo.outIndex).toNat = t - p :=
    h.unplayed
  have hle := h.behind.trans (published_le t s.writer)
  have hfits := h.room
  have hbits := h.shares.ring.1
  have hring : 2 ^ k ≤ 2 ^ 31 := Nat.pow_le_pow_right (by decide) (by omega)
  have havail := (h.shares.synced (.inr rfl)).avail_toNat (by rw [hunplayed]; omega)
  have hgap : cncBufferGapSize.toNat = 2 ^ 15 := rfl
  rw [Admits, BitVec.lt_def, havail, hunplayed, BitVec.toNat_add, BitVec.toNat_ofNat, hgap] at hroom
  omega

theorem Gapped.effect {k t p : Nat} {s s' : Playback} {a : Action} {obs : List Obs}
    (h : Gapped k t p s) (ha : a.transfers = true) (hforward : a.forward = true)
    (he : Effect s a obs s') : Gapped k (obs.foldl tally t) (obs.foldl playOn p) s' := by
  obtain ⟨q, hq⟩ := h.queued
  obtain ⟨q', hqueued, -⟩ := hq.effect (Action.settles_of_transfers ha) hforward he
  have hgap := h.gap
  cases he with
  | look freq rate hbuf hobs =>
      have hkeep : obs.foldl tally t = t ∧ obs.foldl playOn p = p := by
        rcases hobs with rfl | ⟨e, rfl⟩ <;> exact ⟨rfl, rfl⟩
      rw [hkeep.1, hkeep.2] at hqueued ⊢
      exact ⟨⟨q', hqueued⟩, hgap, h.reserved⟩
  | reserve data hfree hlen hahead hroom =>
      refine ⟨⟨q', hqueued⟩, hgap, ?_⟩
      rintro data' heq hn
      cases heq
      exact hq.toIndexed.reserves hroom hn
  | copy data hwriter hfit hc =>
      have hsmall := (hq.writing data hwriter).2
      have havail := hq.shares.avail_toNat hsmall
      have hroom := h.reserved data hwriter (by omega)
      refine ⟨⟨q', hqueued⟩, hroom, ?_⟩
      intro data' heq
      cases heq
  | rollback bs e hwriter hfit hc _ =>
      refine ⟨⟨q', hqueued⟩, hgap, ?_⟩
      intro data' heq
      cases heq
  | publish data hwriter hc =>
      refine ⟨⟨q', hqueued⟩, hgap, ?_⟩
      intro data' heq
      cases heq
  | unpublished hload hwriter =>
      subst hload
      cases ha
  | check o hidle hfree hcheck hcall =>
      exact ⟨⟨q', hqueued⟩, hgap, h.reserved⟩
  | giveUp e hbuf hstarting hfree =>
      exact ⟨⟨q', hqueued⟩, hgap, h.reserved⟩
  | abandon o e hbuf hstarting hfree hc =>
      exact ⟨⟨q', hqueued⟩, hgap, h.reserved⟩
  | commit o hbuf hstarting hfree hidle hreach hc =>
      exact ⟨⟨q', hqueued⟩, hgap, h.reserved⟩
  | @tick fuel es c htick hrun hexec =>
      have hmore : t + 2 ^ 15 ≤ p + (reads es).length + 2 ^ k := by omega
      refine ⟨⟨q', hqueued⟩, hmore, ?_⟩
      intro data hwriter hn
      have hroom := h.reserved data hwriter hn
      change t + data.length + 2 ^ 15 ≤ p + (reads es).length + 2 ^ k
      omega
  | stop => exact ⟨⟨q', hqueued⟩, hgap, h.reserved⟩
  | wipe data position hidle hfree hc =>
      have hnone : ∀ data', s.writer ≠ some ⟨data', false⟩ := by
        intro data' hw
        rw [hfree] at hw
        cases hw
      cases data with
      | false => exact ⟨⟨q', hqueued⟩, hgap, h.reserved⟩
      | true =>
          have hsize := gap_le hq.shares
          have hzero : 0 + 2 ^ 15 ≤ 0 + 2 ^ k := by omega
          exact ⟨⟨q', hqueued⟩, hzero, fun data' hw => absurd hw (hnone data')⟩
  | wipeFailed data e hidle hfree hload =>
      cases data with
      | false => exact ⟨⟨q', hqueued⟩, hgap, h.reserved⟩
      | true =>
          obtain ⟨position, rfl⟩ := hload rfl
          cases ha

private theorem foldl_counts (obs : List Obs) (g : Nat × Nat) :
    obs.foldl (fun g o => (tally g.1 o, playOn g.2 o)) g =
      (obs.foldl tally g.1, obs.foldl playOn g.2) := by
  induction obs generalizing g with
  | nil => rfl
  | cons o obs ih => exact ih _

theorem gapped_run {ringMb : Nat} {args : ScriptArgs} {as : List Action} {out : List Obs}
    {s : Playback} (hexec : System.execute step as (probe ringMb args) = some (out, s))
    (hfed : ∀ a ∈ as, a.transfers = true ∧ a.forward = true) :
    ∃ k, Gapped k (enqueued out) (playedBytes out) s := by
  obtain ⟨k, hinit⟩ := gapped_probe ringMb args
  have hgather := System.execute_gathers (I := fun g s => Gapped k g.1 g.2 s)
    (f := fun g o => (tally g.1 o, playOn g.2 o)) (g := (0, 0)) ?_ hinit
    (System.along_of_forall hfed _) hexec
  · rw [foldl_counts] at hgather
    exact ⟨k, hgather⟩
  · rintro ⟨t, p⟩ s a r hs ha hstep
    have hnext := hs.effect ha.1 ha.2 (step_effect hstep)
    rw [foldl_counts]
    exact hnext

theorem Indexed.maxBacktrackLength_toNat {k t p : Nat} {s : Playback} (h : Indexed k t p s)
    (freq rate : Word) : (s.buf.maxBacktrackLength true freq rate).1.toNat =
      min (t % 2 ^ 64 - (t - p)) (2 ^ k - (t - p)) - (cncBacktrackDecelSteps freq rate).toNat := by
  have hmax : (s.buf.maxBacktrackLength true freq rate).1 =
      cncBacktrackMaxSteps s.buf.fifo.size (s.buf.fifo.inIndex - s.buf.player.head)
        s.buf.totalBytes (cncBacktrackDecelSteps freq rate) := rfl
  have hunplayed := h.unplayed
  have hsize := h.shares.size_toNat
  have hroom := h.room
  have hle : s.buf.fifo.inIndex - s.buf.player.head ≤ s.buf.fifo.size := by
    rw [BitVec.le_def, hunplayed, hsize]
    omega
  have htotal : s.buf.totalBytes.toNat = t % 2 ^ 64 := by
    rw [h.total, BitVec.natCast_eq_ofNat, BitVec.toNat_ofNat]
  rw [hmax, cncBacktrackMaxSteps_toNat, BitVec.toNat_sub_of_le hle, hunplayed, hsize, htotal]

/-- After every run of writes, clears and forward runs: the longest backward run is no
longer than what the ring holds besides the unplayed bytes, less the deceleration tail;
and no shorter than the lesser of 32 KiB and the bytes played, less that tail, with the
bytes played as the 64-bit total has them, which they are up to `2 ^ 64` bytes. -/
theorem gap_is_the_floor {ringMb : Nat} {args : ScriptArgs} {as : List Action} {out : List Obs}
    {s : Playback} (hexec : System.execute step as (probe ringMb args) = some (out, s))
    (hfed : ∀ a ∈ as, a.transfers = true ∧ a.forward = true) (freq rate : Word) :
    let unplayed := (s.buf.fifo.inIndex - s.buf.player.head).toNat
    let tail := (cncBacktrackDecelSteps freq rate).toNat
    let longest := (s.buf.maxBacktrackLength true freq rate).1.toNat
    unplayed ≤ s.buf.fifo.size.toNat ∧ longest ≤ s.buf.fifo.size.toNat - unplayed - tail ∧
      min (enqueued out % 2 ^ 64 - unplayed) (2 ^ 15) - tail ≤ longest ∧
      (enqueued out < 2 ^ 64 → min (playedBytes out) (2 ^ 15) - tail ≤ longest) := by
  obtain ⟨k, hgapped⟩ := gapped_run hexec hfed
  obtain ⟨q, h⟩ := hgapped.queued
  have hunplayed := h.unplayed
  have hlongest := h.maxBacktrackLength_toNat freq rate
  have hsize := h.shares.size_toNat
  have hgap := hgapped.gap
  have hle := h.behind.trans (published_le _ s.writer)
  simp only
  rw [hlongest, hsize, show (s.buf.fifo.inIndex - s.buf.player.head).toNat =
    enqueued out - playedBytes out from hunplayed]
  refine ⟨by omega, by omega, by omega, ?_⟩
  intro hsmall
  rw [Nat.mod_eq_of_lt hsmall]
  omega

private theorem live_feed (m : Nat) :
    ∃ s, Feeds (probe 1 (.over fun _ => 0)) s ∧
      Blank .ready 20 (m * 2 ^ 15 + 2 ^ 15) (m * 2 ^ 15) s ∧ s.writer = none ∧
      s.running = true ∧ s.runningBackward = false := by
  induction m with
  | zero =>
      obtain ⟨s₀, hl₀, h₀, hfree₀, hasked₀, hidle₀, hback₀⟩ := blank_slow
      obtain ⟨s₁, hl₁, h₁, hfree₁, hrun₁, hback₁, hasked₁⟩ :=
        h₀.write (n := 2 ^ 15) hfree₀ hback₀ (by omega)
      obtain ⟨s₂', s₂, hcheck, hcommit, h₂, hfree₂, -, hrun₂, hback₂⟩ :=
        h₁.start .run rfl hfree₁ (hasked₁.trans hasked₀) (hrun₁.trans hidle₀) hback₁ (by omega)
          (fun hb => nomatch hb)
      obtain ⟨c, hl₃, h₃⟩ := h₂.boot hrun₂ hback₂
      have hstart : Feeds s₁ s₂ := (Feeds.step rfl rfl hcheck).trans (.step rfl rfl hcommit)
      rw [Nat.zero_mul]
      exact ⟨_, hl₀.trans (hl₁.trans (hstart.trans hl₃)), h₃, hfree₂, hrun₂, hback₂⟩
  | succ m ih =>
      obtain ⟨s, hl, h, hfree, hrun, hback⟩ := ih
      obtain ⟨c, hl₁, h₁⟩ := h.playForward (n := 2 ^ 15) hrun hback hfree (by omega) (by omega)
      obtain ⟨s₂, hl₂, h₂, hfree₂, hrun₂, hback₂, -⟩ :=
        h₁.write (n := 2 ^ 15) hfree hback (by omega)
      rw [Nat.succ_mul]
      exact ⟨s₂, hl.trans (hl₁.trans hl₂), h₂, hfree₂, hrun₂.trans hrun, hback₂⟩

/-- `2 ^ 64` bytes into a job the total is back at zero, and no history is seen. -/
theorem gap_is_the_floor_false :
    ¬∀ (ringMb : Nat) (args : ScriptArgs) (as : List Action) (out : List Obs) (s : Playback)
      (freq rate : Word), System.execute step as (probe ringMb args) = some (out, s) →
      (∀ a ∈ as, a.transfers = true ∧ a.forward = true) →
      min (playedBytes out) (2 ^ 15) - (cncBacktrackDecelSteps freq rate).toNat ≤
        (s.buf.maxBacktrackLength true freq rate).1.toNat := by
  intro h
  obtain ⟨s, ⟨as, out, hfed, hexec⟩, hblank, -⟩ := live_feed (2 ^ 49 - 1)
  have hfloor := h 1 _ as out s 1000 500000 hexec hfed
  obtain ⟨k, hgapped⟩ := gapped_run hexec hfed
  obtain ⟨q, hrun⟩ := hgapped.queued
  have hplayed : playedBytes out % 2 ^ 32 = 2 ^ 32 - 2 ^ 15 := by
    have hhead := hrun.head.symm.trans hblank.head
    rw [← BitVec.toNat_inj, BitVec.natCast_eq_ofNat, BitVec.natCast_eq_ofNat, BitVec.toNat_ofNat,
      BitVec.toNat_ofNat] at hhead
    omega
  have hzero : (s.buf.maxBacktrackLength true 1000 500000).1.toNat = 0 := by
    rw [hblank.maxBacktrackLength_toNat]
    omega
  have htail : (cncBacktrackDecelSteps 1000 500000).toNat = 1 := by decide
  rw [hzero, htail] at hfloor
  omega

/-- Two bytes are fed, and one is played. -/
theorem gap_is_the_floor_twoBytes :
    ∃ as out s, System.execute step as (probe 1 (.over fun _ => 0)) = some (out, s) ∧
      enqueued out < 2 ^ 64 ∧
      min (playedBytes out) (2 ^ 15) - (cncBacktrackDecelSteps 1000 500000).toNat ≤
        (s.buf.maxBacktrackLength true 1000 500000).1.toNat := by
  have hrun : (System.execute step [.writeBegin [1, 1] true, .writeCopy .all, .writePublish true,
      .startCheck .run true true, .startCommit .granted, .tick 200, .tick 200]
      (probe 1 (.over fun _ => 0))).map (fun r => (enqueued r.1, playedBytes r.1)) = some (2, 1) := by
    decide +kernel
  obtain ⟨⟨out, s⟩, hexec, hseen⟩ := Option.map_eq_some_iff.mp hrun
  injection hseen with hbytes hplayed
  have hbytes' : enqueued out = 2 := hbytes
  have hsmall : enqueued out < 2 ^ 64 := by omega
  have hfloor := gap_is_the_floor hexec (by decide) 1000 500000
  exact ⟨_, out, s, hexec, hsmall, hfloor.2.2.2 hsmall⟩

end Playback

end Glowforge.Cnc
