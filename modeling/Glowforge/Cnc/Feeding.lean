import Glowforge.Cnc.FailedCalls

/-! What the position and free attributes tell the process that feeds the ring: the byte
counters agree with the ring's indices whatever fails, and a reading of the free space is
room for a write of that size until another write or a run backward. -/
namespace Glowforge.Cnc
open Foundation Sdma

structure CncPosition where
  xStepPos : Word
  yStepPos : Word
  zStepPos : Word
  bytesProcessed : Word
  bytesTotal : Word
  reserved : Word × Word × Word
  deriving DecidableEq, Repr

namespace Pulsebuf

/-- `cnc_buffer_total_bytes`: it saturates. -/
def cncBufferTotalBytes (b : Pulsebuf) : Word :=
  if b.totalBytes > 0xFFFFFFFF then 0xFFFFFFFF else b.totalBytes.truncate 32

/-- `cnc_get_position`: the eight scratch words of the context, the fifth of which (the
head) makes way for the bytes enqueued. -/
def cncGetPosition (b : Pulsebuf) (fetch : Bool) : Except Errno CncPosition :=
  if fetch then
    let w := b.engine.m.word
    .ok ⟨w 24, w 25, w 26, w 27, b.cncBufferTotalBytes, w 29, w 30, w 31⟩
  else .error .ESDMA

theorem cncBufferTotalBytes_toNat (b : Pulsebuf) :
    b.cncBufferTotalBytes.toNat = min b.totalBytes.toNat (2 ^ 32 - 1) := by
  unfold cncBufferTotalBytes
  have hmax : (0xFFFFFFFF : BitVec 64).toNat = 2 ^ 32 - 1 := rfl
  by_cases h : b.totalBytes > 0xFFFFFFFF
  · rw [if_pos h]
    have hlt : (0xFFFFFFFF : BitVec 64).toNat < b.totalBytes.toNat := h
    rw [Nat.min_eq_right (by omega)]
    rfl
  · rw [if_neg h]
    have hle : b.totalBytes.toNat ≤ (0xFFFFFFFF : BitVec 64).toNat := Nat.le_of_not_lt h
    rw [BitVec.truncate_eq_setWidth, BitVec.toNat_setWidth, Nat.mod_eq_of_lt (by omega),
      Nat.min_eq_left (by omega)]

/-! The byte counter and the head move together, whatever fails. -/

def Counts (b : Pulsebuf) : Prop := b.player.bytes = b.player.head

namespace Counts

theorem park {p : Player} (h : p.bytes = p.head) : p.park.2.bytes = p.park.2.head := by
  unfold Player.park
  simp only
  split
  · split <;> exact h
  · exact h

theorem consume {p : Player} (h : p.bytes = p.head) : p.consume.2.bytes = p.consume.2.head := by
  rw [Player.consume_bytes, Player.consume_head, h]

theorem drains {n : Nat} {p p' : Player} {es : List Event} {ph : Player.Phase}
    (hdrains : Player.Drains n p es ph p') (h : p.bytes = p.head) : p'.bytes = p'.head := by
  induction hdrains with
  | park _ => exact park h
  | last _ _ => exact consume h
  | more _ _ _ ih => exact ih (consume h)

theorem ticked {n : Nat} {ph ph' : Player.Phase} {p p' : Player} {es : List Event}
    (htick : Player.Tick n ph p es ph' p') (h : p.bytes = p.head) : p'.bytes = p'.head := by
  cases htick with
  | restart _ => exact h
  | play hdrains => exact drains hdrains h

theorem tick {k fuel : Nat} {b : Pulsebuf} {es : List Event} {c : Config Label}
    (hshares : b.Shares k) (hexec : Engine.exec script.step fuel b.engine = some (es, c))
    (h : Counts b) : Counts { b with engine := c } := by
  obtain ⟨ph, hw⟩ := hshares.waits
  obtain ⟨n, ph', htick, -⟩ := tick_of_exec hw hexec
  exact ticked htick h

theorem setRegs {b : Pulsebuf} {o : CncRunOptions} {c : Config Label}
    (hc : c = b.setRegs o ∨ c = b.setSomeRegs o) (h : Counts b) :
    Counts { b with engine := c } := by
  have hplayer := Pulsebuf.player_setRegs b o
  have hsome := Pulsebuf.player_setSomeRegs b o
  rcases hc with rfl | rfl
  · change (b.setRegs o).m.player.bytes = (b.setRegs o).m.player.head
    rw [hplayer]
    exact h
  · change (b.setSomeRegs o).m.player.bytes = (b.setSomeRegs o).m.player.head
    rw [hsome, hplayer]
    exact h

theorem store {b : Pulsebuf} (bs : List Byte) (h : Counts b) :
    Counts { b with engine := (b.store bs).engine } := by
  change (b.store bs).engine.m.player.bytes = (b.store bs).engine.m.player.head
  rw [Pulsebuf.player_store]
  exact h

theorem publishTail {b : Pulsebuf} (h : Counts b) :
    Counts { b with engine := b.publishTail.engine } := by
  change b.publishTail.engine.m.player.bytes = b.publishTail.engine.m.player.head
  rw [Pulsebuf.player_publishTail]
  exact h

theorem clear {b : Pulsebuf} (data position : Bool) (h : Counts b) :
    Counts { b with engine := b.engine.clear data position } := by
  change (b.engine.clear data position).m.player.bytes = (b.engine.clear data position).m.player.head
  rw [player_clear]
  cases data
  · exact h
  · rfl

theorem load (args : ScriptArgs) :
    (loadSdmaScript args).m.player.bytes = (loadSdmaScript args).m.player.head := by
  simp [loadSdmaScript, Program.goto, Machine.player, Machine.word, Machine.setWord]

theorem fetched {b buf : Pulsebuf} (hbuf : buf = b ∨ buf = b.synced) (h : Counts b) : Counts buf := by
  rcases hbuf with rfl | rfl
  · exact h
  · exact h

theorem forget {b : Pulsebuf} (data : Bool) (h : Counts b) : Counts (b.forget data) := by
  cases data
  · exact h
  · exact h

end Counts

end Pulsebuf

namespace Playback

open Pulsebuf (Counts)

theorem Counted.counts {k t : Nat} {s s' : Playback} {a : Action} {obs : List Obs}
    (hcounted : Counted k t s) (he : Effect s a obs s') (h : Counts s.buf) : Counts s'.buf := by
  cases he with
  | look freq rate hbuf _ => exact h.fetched hbuf
  | reserve data _ _ _ _ => exact h
  | copy data _ _ hc =>
      subst hc
      exact h.store data
  | rollback bs e _ _ hc _ =>
      subst hc
      exact h.store bs
  | publish data _ hc =>
      subst hc
      exact h.publishTail
  | unpublished _ _ => exact h
  | check o _ _ _ _ => exact h
  | giveUp e hbuf _ _ => exact h.fetched hbuf
  | abandon o e hbuf _ _ hc => exact (h.fetched hbuf).setRegs hc
  | commit o hbuf _ _ _ _ hc => exact (h.fetched hbuf).setRegs (.inl hc)
  | tick _ _ hexec => exact h.tick hcounted.shares hexec
  | stop => exact h
  | wipe data position _ _ hc =>
      subst hc
      cases data
      · exact h.clear false position
      · exact h.clear true position
  | wipeFailed data e _ _ _ => exact h.forget data

theorem counts_run {ringMb : Nat} {args : ScriptArgs} {as : List Action} {out : List Obs}
    {s : Playback} (h : System.execute step as (probe ringMb args) = some (out, s)) :
    ∃ k, Counted k (enqueued out) s ∧ Counts s.buf := by
  obtain ⟨k, hinit⟩ := counted_probe ringMb args
  refine ⟨k, System.execute_gathers (I := fun t s => Counted k t s ∧ Counts s.buf) ?_
    ⟨hinit, Counts.load _⟩ (System.along_true as _) h⟩
  intro t s a r hs _ hstep
  have he := step_effect hstep
  exact ⟨hs.1.effect he, hs.1.counts he hs.2⟩

/-- Whatever was written, played, stopped or cleared and whatever failed: a position that
can be read gives the bytes taken into the ring, saturated, and the bytes processed; short of
`2 ^ 32` bytes the two differ by what the indices of the ring differ by. -/
theorem position_counts {ringMb : Nat} {args : ScriptArgs} {as : List Action} {out : List Obs}
    {s : Playback} (h : System.execute step as (probe ringMb args) = some (out, s)) :
    ∃ pos, s.buf.cncGetPosition true = .ok pos ∧
      pos.bytesProcessed = s.buf.synced.fifo.outIndex ∧
      pos.bytesTotal.toNat = min (enqueued out % 2 ^ 64) (2 ^ 32 - 1) ∧
      (enqueued out < 2 ^ 32 →
        pos.bytesTotal - pos.bytesProcessed = s.buf.fifo.inIndex - s.buf.synced.fifo.outIndex) := by
  obtain ⟨k, hcounted, hcounts⟩ := counts_run h
  have htotal : s.buf.totalBytes.toNat = enqueued out % 2 ^ 64 := by
    rw [hcounted.total, BitVec.natCast_eq_ofNat, BitVec.toNat_ofNat]
  refine ⟨_, rfl, hcounts, ?_, ?_⟩
  · rw [Pulsebuf.cncBufferTotalBytes_toNat, htotal]
  · intro hsmall
    have hbytes : s.buf.cncBufferTotalBytes = s.buf.fifo.inIndex := by
      apply BitVec.eq_of_toNat_eq
      rw [Pulsebuf.cncBufferTotalBytes_toNat, htotal, hcounted.written, BitVec.natCast_eq_ofNat,
        BitVec.toNat_ofNat, Nat.mod_eq_of_lt hsmall, Nat.mod_eq_of_lt (by omega)]
      omega
    have hprocessed : s.buf.engine.m.word 27 = s.buf.synced.fifo.outIndex := hcounts
    rw [hbytes, hprocessed]

/-- Two bytes are published and one of them is played; a third never is. -/
theorem position_counts_unpublished :
    ∃ s : Playback, ∃ pos, s.buf.cncGetPosition true = .ok pos ∧ pos.bytesTotal.toNat = 3 ∧
      pos.bytesTotal - pos.bytesProcessed = s.buf.fifo.inIndex - s.buf.synced.fifo.outIndex := by
  have hrun : (System.execute step [.writeBegin [1, 1] true, .writeCopy .all, .writePublish true,
      .startCheck .run true true, .startCommit .granted, .tick 200, .tick 200,
      .writeBegin [1] true, .writeCopy .all, .writePublish false]
      (probe 1 (.over fun _ => 0))).map (fun r => enqueued r.1) = some 3 := by
    decide +kernel
  obtain ⟨⟨out, s⟩, hexec, hbytes⟩ := Option.map_eq_some_iff.mp hrun
  have hthree : enqueued out = 3 := hbytes
  obtain ⟨pos, hpos, -, htotal, hunplayed⟩ := position_counts hexec
  refine ⟨s, pos, hpos, ?_, hunplayed (by rw [hthree]; decide)⟩
  rw [htotal, hthree]
  rfl

/-! What a reading of the free space is worth later. -/

theorem startCheck_writer (s : Playback) (o : CncRunOptions) (fetch verify : Bool) :
    (s.startCheck o fetch verify).2.writer = s.writer := by
  unfold startCheck
  by_cases hrun : s.running = true
  · rw [if_pos hrun]
  · rw [if_neg hrun]
    rcases s.buf.isEmpty fetch with ⟨empty, buf⟩
    cases empty
    · cases verify <;> rfl
    · rfl

theorem startCommit_writer (s : Playback) (o : CncRunOptions) (w : StartOutcome) :
    (s.startCommit o w).2.writer = s.writer := by
  unfold startCommit
  simp only
  split_ifs <;> rfl

theorem clear_writer (s : Playback) (data position load : Bool) :
    (s.clear data position load).2.writer = s.writer := by
  unfold clear
  rcases s.buf.clear data position load with ⟨result, buf⟩
  cases result <;> rfl

theorem step_writer {s : Playback} {a : Action} {r : List Obs × Playback} (ha : a.writes = false)
    (h : s.step a = some r) : r.2.writer = s.writer := by
  cases a with
  | writeBegin data fetch => cases ha
  | writeCopy outcome => cases ha
  | writePublish load => cases ha
  | startCheck call fetch verify =>
      obtain ⟨-, h⟩ := Option.ite_none_right_eq_some.mp h
      split at h
      · cases h
        rfl
      · cases h
        exact startCheck_writer s _ fetch verify
  | startCommit outcome =>
      simp only [step] at h
      split at h
      · cases h
        exact startCommit_writer s _ outcome
      · cases h
  | tick fuel =>
      obtain ⟨-, h⟩ := Option.ite_none_right_eq_some.mp h
      obtain ⟨q, -, rfl⟩ := Option.map_eq_some_iff.mp h
      rfl
  | stop =>
      cases h
      rfl
  | clear data position load =>
      obtain ⟨-, h⟩ := Option.ite_none_right_eq_some.mp h
      split at h
      · cases h
        rfl
      · cases h
        exact clear_writer s data position load
  | syncHead fetch =>
      cases h
      rfl
  | setStepFrequency freq =>
      simp only [step] at h
      split_ifs at h <;> · cases h; rfl
  | setRampRate hz =>
      simp only [step] at h
      split_ifs at h <;> · cases h; rfl

/-- `n` more bytes fit behind those not yet played, also by the host's last view of the
head while a copy is under way. -/
structure Spare (k n : Nat) (s : Playback) : Prop where
  room : ∃ t p, Indexed k t p s ∧ t + n ≤ p + 2 ^ k
  ahead : s.running = true → s.runningBackward = false
  copying : ∀ data, s.writer = some ⟨data, false⟩ → n ≤ s.buf.fifo.avail.toNat

theorem Indexed.avail_synced {k t p : Nat} {s : Playback} (h : Indexed k t p s) :
    s.buf.synced.fifo.avail.toNat = 2 ^ k - (t - p) := by
  have hunplayed : (s.buf.synced.fifo.inIndex - s.buf.synced.fifo.outIndex).toNat = t - p :=
    h.unplayed
  have hroom := h.room
  have hpos := Nat.two_pow_pos k
  have hshares := h.shares.synced (.inr rfl)
  rw [hshares.avail_toNat (by omega), hunplayed]

theorem Spare.weaken {k m n : Nat} {s : Playback} (h : Spare k n s) (hle : m ≤ n) : Spare k m s := by
  obtain ⟨t, p, hindexed, hroom⟩ := h.room
  refine ⟨⟨t, p, hindexed, by omega⟩, h.ahead, ?_⟩
  intro data hwriter
  exact hle.trans (h.copying data hwriter)

theorem Spare.avail {k n : Nat} {s : Playback} (h : Spare k n s) {buf : Pulsebuf}
    (hbuf : buf = s.buf ∨ buf = s.buf.synced) {data : List Byte}
    (hwriter : s.writer = some ⟨data, false⟩) : n ≤ buf.fifo.avail.toNat := by
  rcases hbuf with rfl | rfl
  · exact h.copying data hwriter
  · obtain ⟨t, p, hindexed, hroom⟩ := h.room
    have hle := hindexed.behind.trans (published_le t s.writer)
    rw [hindexed.avail_synced]
    omega

/-- A reset leaves no less room than there was, and only a reset moves the write index
other than by a copy. -/
theorem Spare.effect {k n : Nat} {s s' : Playback} {a : Action} {obs : List Obs}
    (h : Spare k n s) (ha : a.settles = true) (he : Effect s a obs s')
    (hwriter : s'.writer = s.writer) (hforward : .started true ∉ obs) : Spare k n s' := by
  obtain ⟨t, p, hindexed, hroom⟩ := h.room
  have hle := hindexed.behind.trans (published_le t s.writer)
  obtain ⟨q, hq, hmoved⟩ := hindexed.effect ha he
  cases he with
  | look freq rate hbuf hobs =>
      have hkeep : obs.foldl tally t = t ∧ obs.foldl playOn p = p := by
        rcases hobs with rfl | ⟨e, rfl⟩ <;> exact ⟨rfl, rfl⟩
      have hqp : q = p := by
        rw [hmoved, hkeep.2]
        rcases hobs with rfl | ⟨e, rfl⟩ <;> exact .inr (by simp)
      rw [hkeep.1, hqp] at hq
      exact ⟨⟨t, p, hq, hroom⟩, h.ahead, fun data hw => h.avail hbuf hw⟩
  | reserve data hfree _ _ _ =>
      rw [hfree] at hwriter
      cases hwriter
  | copy data hw _ _ =>
      rw [hw] at hwriter
      cases hwriter
  | rollback bs e hw _ _ _ =>
      rw [hw] at hwriter
      cases hwriter
  | publish data hw _ =>
      rw [hw] at hwriter
      cases hwriter
  | unpublished _ hw =>
      rw [hw] at hwriter
      cases hwriter
  | check o _ _ _ _ =>
      rw [hmoved (.inr (by simp))] at hq
      exact ⟨⟨t, p, hq, hroom⟩, h.ahead, fun data hw => h.avail (.inr rfl) hw⟩
  | giveUp e hbuf _ _ =>
      rw [hmoved (.inr (by simp))] at hq
      exact ⟨⟨t, p, hq, hroom⟩, h.ahead, fun data hw => h.avail hbuf hw⟩
  | abandon o e hbuf _ hfree hc =>
      rw [hmoved (.inr (by simp))] at hq
      exact ⟨⟨t, p, hq, hroom⟩, h.ahead, fun data hw => absurd hw (by simp [hfree])⟩
  | commit o hbuf _ hfree _ _ _ =>
      rw [hmoved (.inr (by simp))] at hq
      have hback : o.backward = false := by simpa using hforward
      exact ⟨⟨t, p, hq, hroom⟩, fun _ => hback, fun data hw => absurd hw (by simp [hfree])⟩
  | tick _ hrun hexec =>
      rw [hmoved (.inl (h.ahead hrun))] at hq
      exact ⟨⟨t, _, hq, hroom.trans (Nat.add_le_add_right (Nat.le_add_right p _) _)⟩, h.ahead, h.copying⟩
  | stop =>
      rw [hmoved (.inr (by simp))] at hq
      refine ⟨⟨t, p, hq, hroom⟩, ?_, h.copying⟩
      intro _
      rfl
  | wipe data position hidle hfree _ =>
      have hnone : ∀ data, s.writer ≠ some ⟨data, false⟩ := by simp [hfree]
      cases data with
      | false =>
          rw [hmoved (.inr (by simp))] at hq
          exact ⟨⟨t, p, hq, hroom⟩, h.ahead, fun data hw => absurd hw (hnone data)⟩
      | true =>
          rw [hmoved (.inr (by simp))] at hq
          exact ⟨⟨0, 0, hq, by omega⟩, h.ahead, fun data hw => absurd hw (hnone data)⟩
  | wipeFailed data e hidle hfree hload =>
      have hnone : ∀ data, s.writer ≠ some ⟨data, false⟩ := by simp [hfree]
      cases data with
      | false =>
          rw [hmoved (.inr (by simp))] at hq
          exact ⟨⟨t, p, hq, hroom⟩, h.ahead, fun data hw => absurd hw (hnone data)⟩
      | true =>
          obtain ⟨position, rfl⟩ := hload rfl
          cases ha

def Action.others (a : Action) : Prop := a.writes = false ∧ a.transfers = true

theorem Spare.run {k n : Nat} {s : Playback} {as : List Action} {r : List Obs × Playback}
    (h : Spare k n s) (hothers : ∀ a ∈ as, Action.others a) (hforward : .started true ∉ r.1)
    (hexec : System.execute step as s = some r) : Spare k n r.2 ∧ r.2.writer = s.writer := by
  have halong := (System.along_of_forall hothers s).and
    (System.along_of_output (P := (· ≠ .started true)) hexec
      (by
        rintro e he rfl
        exact hforward he))
  refine (System.execute_guarded (I := fun q => Spare k n q ∧ q.writer = s.writer)
    (P := fun _ => True) ?_ ⟨h, rfl⟩ halong hexec).1
  rintro q a r ⟨hq, hw⟩ ⟨ha, hout⟩ hstep
  have hwriter := step_writer ha.1 hstep
  have hspare := hq.effect (Action.settles_of_transfers ha.2) (step_effect hstep) hwriter
    (fun hmem => hout r hstep _ hmem rfl)
  exact ⟨⟨hspare, hwriter.trans hw⟩, fun _ _ => trivial⟩

theorem Spare.reserve {k : Nat} {s : Playback} {data : List Byte} {r : List Obs × Playback}
    (h : Spare k (data.length + cncBufferGapSize.toNat) s)
    (hstep : s.step (.writeBegin data true) = some r) :
    Spare k data.length r.2 ∧ r.2.writer = some ⟨data, false⟩ ∧ r.1 = [] := by
  obtain ⟨⟨hfree, hlen⟩, hr⟩ := Option.ite_none_right_eq_some.mp hstep
  cases hr
  obtain ⟨t, p, hindexed, hroom⟩ := h.room
  have hle := hindexed.behind.trans (published_le t s.writer)
  have hsize := hindexed.shares.ring.size_lt
  have havail := hindexed.avail_synced
  have hback : (s.running && s.runningBackward) = false := by
    cases hrun : s.running
    · rfl
    · rw [h.ahead hrun]
      rfl
  have hfits : ¬s.buf.synced.fifo.avail < BitVec.ofNat 32 data.length + cncBufferGapSize := by
    rw [BitVec.not_lt, BitVec.le_def, BitVec.toNat_add, BitVec.toNat_ofNat, havail]
    have hmod := Nat.mod_le (data.length % 2 ^ 32 + cncBufferGapSize.toNat) (2 ^ 32)
    have hmod' := Nat.mod_le data.length (2 ^ 32)
    omega
  have hbegin : s.writeBegin data true =
      ([], { s with buf := s.buf.synced, writer := some ⟨data, false⟩ }) := by
    unfold writeBegin Pulsebuf.addUserDataBegin Pulsebuf.syncHead
    simp only [hback, Bool.false_eq_true, if_false, if_true, if_neg hfits]
  obtain ⟨q, hq, hmoved⟩ := hindexed.effect rfl (step_effect hstep)
  rw [hbegin] at hq hmoved ⊢
  rw [hmoved (.inr (by simp))] at hq
  refine ⟨⟨⟨t, p, hq, by omega⟩, h.ahead, ?_⟩, rfl, rfl⟩
  intro _ _
  change data.length ≤ s.buf.synced.fifo.avail.toNat
  omega

theorem Spare.copied {k : Nat} {s : Playback} {data : List Byte} {r : List Obs × Playback}
    (h : Spare k data.length s) (hwriter : s.writer = some ⟨data, false⟩)
    (hstep : s.step (.writeCopy .all) = some r) :
    r.2.writer = some ⟨data, true⟩ ∧ r.1 = [.queued data] := by
  have hlen : min data.length s.buf.fifo.avail.toNat = data.length :=
    Nat.min_eq_left (h.copying data hwriter)
  simp only [step, hwriter] at hstep
  obtain ⟨-, hr⟩ := Option.ite_none_right_eq_some.mp hstep
  cases hr
  unfold writeCopy Pulsebuf.addUserDataCopy
  simp [hlen]

theorem Indexed.spare {k t p n : Nat} {s : Playback} (h : Indexed k t p s) (hfree : s.writer = none)
    (hahead : s.running = true → s.runningBackward = false) (hpos : 0 < n)
    (hfit : n ≤ (s.buf.getFreeSpace true).1.toNat) : Spare k (n + cncBufferGapSize.toNat) s := by
  have hle := h.behind.trans (published_le t s.writer)
  have havail := h.avail_synced
  have hspace : n + cncBufferGapSize.toNat ≤ 2 ^ k - (t - p) := by
    unfold Pulsebuf.getFreeSpace Pulsebuf.syncHead at hfit
    simp only [if_true] at hfit
    by_cases hgap : s.buf.synced.fifo.avail > cncBufferGapSize
    · rw [if_pos hgap, BitVec.toNat_sub_of_le (BitVec.le_of_lt hgap), havail] at hfit
      omega
    · rw [if_neg hgap] at hfit
      have hzero : (0 : Word).toNat = 0 := rfl
      omega
  refine ⟨⟨t, p, h, by omega⟩, hahead, ?_⟩
  intro data hw
  rw [hfree] at hw
  contradiction

end Playback

end Glowforge.Cnc
