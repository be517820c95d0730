import Glowforge.Cnc.Counted

/-! The play position as a count of bytes. While every context transfer succeeds, the
script's head trails the write index by the bytes not yet played, which fit the ring,
whatever was written, played forward, walked back or cleared. -/
namespace Glowforge.Cnc
open Foundation Sdma

def Action.transfers : Action → Bool
  | .writeBegin _ fetch => fetch
  | .writePublish load => load
  | .startCheck _ fetch _ => fetch
  | .startCommit w => w.syncMax && w.setRegs && w.setInhibit
  | .clear _ _ load => load
  | .syncHead fetch => fetch
  | _ => true

/-- The transfers that tell the script what the host has counted already: a new tail, and
the reset of a data clear. -/
def Action.settles : Action → Bool
  | .writePublish load => load
  | .clear data _ load => load || !data
  | _ => true

theorem Action.settles_of_transfers {a : Action} (h : a.transfers = true) : a.settles = true := by
  cases a with
  | writePublish load => exact h
  | clear data position load =>
      rw [Action.transfers] at h
      rw [Action.settles, h, Bool.true_or]
  | _ => rfl

def Action.forward : Action → Bool
  | .startCheck call _ _ =>
      match call.options with
      | .ok o => !o.backward
      | .error _ => true
  | _ => true

/-- How many of `t` bytes the script has been told of. -/
def published (t : Nat) : Option Writer → Nat
  | some ⟨data, true⟩ => t - data.length
  | _ => t

namespace Playback

def span (s : Playback) : Nat := (cncBacktrackSpan s.buf.fifo.size s.buf.totalBytes).toNat

def playOn (p : Nat) : Obs → Nat
  | .played es => p + (reads es).length
  | .emptied => 0
  | _ => p

/-- A run that stops at the last byte published. -/
structure Forward (t : Nat) (s : Playback) : Prop where
  tail : s.buf.player.tail = (published t s.writer : Word)
  dir : s.buf.player.dir = 1 ∨ s.buf.player.dir = 0

/-- A run that stops at the oldest byte of the span behind the write index. -/
structure Backward (t p : Nat) (s : Playback) : Prop where
  tail : s.buf.player.tail = ((t - s.span : Nat) : Word)
  dir : s.buf.player.dir = -1 ∨ s.buf.player.dir = 0
  free : s.writer = none
  ahead : t - s.span ≤ p

/-- `p` of `t` bytes are played. -/
structure Indexed (k t p : Nat) (s : Playback) : Prop extends Counted k t s where
  head : s.buf.player.head = (p : Word)
  behind : p ≤ published t s.writer
  room : t ≤ p + 2 ^ k
  writing : ∀ data, s.writer = some ⟨data, false⟩ →
    t ≤ p + (s.buf.fifo.inIndex - s.buf.fifo.outIndex).toNat ∧
      (s.buf.fifo.inIndex - s.buf.fifo.outIndex).toNat ≤ 2 ^ k
  forward : s.running = true → s.runningBackward = false → Forward t s
  backward : s.running = true → s.runningBackward = true → Backward t p s

theorem published_le (t : Nat) (w : Option Writer) : published t w ≤ t := by
  unfold published
  split
  · exact Nat.sub_le _ _
  · exact Nat.le_refl _

theorem span_le {k t : Nat} {s : Playback} (h : Counted k t s) : s.span ≤ t ∧ s.span ≤ 2 ^ k := by
  have htotal : s.buf.totalBytes.toNat ≤ t := by
    rw [h.total, BitVec.natCast_eq_ofNat, BitVec.toNat_ofNat]
    exact Nat.mod_le _ _
  rw [span, cncBacktrackSpan_toNat, h.shares.size_toNat]
  omega

theorem indexed_probe (ringMb : Nat) (args : ScriptArgs) :
    ∃ k, Indexed k 0 0 (probe ringMb args) := by
  obtain ⟨k, hcounted⟩ := counted_probe ringMb args
  refine ⟨k, hcounted, head_load _, Nat.le_refl _, Nat.zero_le _, ?_, ?_, ?_⟩
  · intro data hw
    cases hw
  · intro hr
    cases hr
  · intro hr
    cases hr

theorem Indexed.unplayed {k t p : Nat} {s : Playback} (h : Indexed k t p s) :
    (s.buf.fifo.inIndex - s.buf.player.head).toNat = t - p := by
  have hle := h.behind.trans (published_le t s.writer)
  have hroom := h.room
  have hsize := h.shares.ring.size_lt
  rw [h.written, h.head, ← Nat.cast_sub hle, BitVec.natCast_eq_ofNat, BitVec.toNat_ofNat,
    Nat.mod_eq_of_lt (by omega)]

theorem Indexed.fetched {k t p : Nat} {s : Playback} (h : Indexed k t p s) {buf : Pulsebuf}
    (hbuf : buf = s.buf ∨ buf = s.buf.synced) : Indexed k t p { s with buf := buf } := by
  rcases hbuf with rfl | rfl
  · exact h
  · have hcounted : Counted k t { s with buf := s.buf.synced } :=
      ⟨h.shares.synced (.inr rfl), h.written, h.total, h.asked, h.idle⟩
    refine ⟨hcounted, h.head, h.behind, h.room, ?_, ?_, ?_⟩
    · intro data _
      have hunplayed : (s.buf.synced.fifo.inIndex - s.buf.synced.fifo.outIndex).toNat = t - p :=
        h.unplayed
      have hroom := h.room
      have hpos := Nat.two_pow_pos k
      change t ≤ p + (s.buf.synced.fifo.inIndex - s.buf.synced.fifo.outIndex).toNat ∧
        (s.buf.synced.fifo.inIndex - s.buf.synced.fifo.outIndex).toNat ≤ 2 ^ k
      omega
    · intro hrun hback
      have hforward := h.forward hrun hback
      exact ⟨hforward.tail, hforward.dir⟩
    · intro hrun hback
      have hbackward := h.backward hrun hback
      exact ⟨hbackward.tail, hbackward.dir, hbackward.free, hbackward.ahead⟩

/-- A tick moves the head by the bytes it plays, and never past the tail. -/
theorem Indexed.tick {k t p fuel : Nat} {s : Playback} {a : Action} {es : List Event}
    {c : Config Label} (h : Indexed k t p s) (he : Effect s a [.played es]
      { s with buf := { s.buf with engine := c } }) (hrun : s.running = true)
    (hexec : Engine.exec script.step fuel s.buf.engine = some (es, c)) :
    ∃ q, Indexed k t q { s with buf := { s.buf with engine := c } } ∧
      (s.runningBackward = false → q = p + (reads es).length) ∧
      (s.runningBackward = true → q + (reads es).length = p) := by
  obtain ⟨ph, hw⟩ := h.shares.waits
  obtain ⟨n, ph', htick, -⟩ := tick_of_exec hw hexec
  have hwalk := htick.walked
  have hcounted := h.toCounted.effect he
  have htail : c.m.player.tail = s.buf.player.tail := congrArg Player.Setup.tail htick.setup
  have hend : c.m.player.head = s.buf.player.head + n • s.buf.player.dir := hwalk.head
  have hdir : c.m.player.dir = s.buf.player.dir ∨ c.m.player.dir = 0 := hwalk.dir
  have hcells : reads es = s.buf.player.cells n := hwalk.reads
  have hlen : (reads es).length = n := by
    rw [hcells, Player.cells, List.length_map, List.length_range]
  have hmove : ∀ j : Nat, n ≠ 0 → ∀ d, (s.buf.player.dir = d ∨ s.buf.player.dir = 0) →
      s.buf.player.head + j • s.buf.player.dir = p + j • d := by
    intro j hn d hd
    rw [h.head, hd.resolve_right (hwalk.moving hn)]
  have hmeet : ∀ j : Nat, j < n → s.buf.player.head + j • s.buf.player.dir ≠ s.buf.player.tail := by
    intro j hj heq
    exact hwalk.room j hj (congrArg (· &&& s.buf.player.mask) heq)
  have hdir' : ∀ d, (s.buf.player.dir = d ∨ s.buf.player.dir = 0) →
      c.m.player.dir = d ∨ c.m.player.dir = 0 := by
    intro d hd
    rcases hdir with hkeep | hzero
    · exact hd.imp hkeep.trans hkeep.trans
    · exact .inr hzero
  have hle := h.behind
  have hpub := published_le t s.writer
  by_cases hback : s.runningBackward = false
  · have hforward := h.forward hrun hback
    have hbehind : p + n ≤ published t s.writer := by
      by_contra hfar
      apply hmeet (published t s.writer - p) (by omega)
      rw [hmove _ (by omega) 1 hforward.dir, hforward.tail, nsmul_one, ← Nat.cast_add,
        Nat.add_sub_cancel' hle]
    have hhead : c.m.player.head = ((p + n : Nat) : Word) := by
      rw [hend]
      by_cases hn : n = 0
      · rw [hn, zero_nsmul, add_zero, Nat.add_zero, h.head]
      · rw [hmove n hn 1 hforward.dir, nsmul_one, Nat.cast_add]
    refine ⟨p + n, ⟨hcounted, hhead, hbehind, ?_, ?_, ?_, ?_⟩, fun _ => by rw [hlen], fun hb => absurd hb (by simp [hback])⟩
    · exact h.room.trans (by omega)
    · intro data hwriter
      have hwriting := h.writing data hwriter
      exact ⟨hwriting.1.trans (Nat.add_le_add_right (Nat.le_add_right p n) _), hwriting.2⟩
    · intro _ _
      exact ⟨htail.trans hforward.tail, hdir' 1 hforward.dir⟩
    · intro _ hb
      exact absurd hb (by simp [hback])
  · have hb := eq_true_of_ne_false hback
    have hbackward := h.backward hrun hb
    have hspan := (span_le h.toCounted).1
    have hroom := (span_le h.toCounted).2
    have hpublished : published t s.writer = t := by
      rw [hbackward.free]
      rfl
    have hahead : t - s.span + n ≤ p := by
      by_contra hfar
      have hstop := hbackward.ahead
      apply hmeet (p - (t - s.span)) (by omega)
      rw [hmove _ (by omega) (-1) hbackward.dir, hbackward.tail, neg_nsmul, nsmul_one,
        ← sub_eq_add_neg, ← Nat.cast_sub (by omega), Nat.sub_sub_self hstop]
    have hhead : c.m.player.head = ((p - n : Nat) : Word) := by
      rw [hend]
      by_cases hn : n = 0
      · rw [hn, zero_nsmul, add_zero, Nat.sub_zero, h.head]
      · rw [hmove n hn (-1) hbackward.dir, neg_nsmul, nsmul_one, ← sub_eq_add_neg,
          ← Nat.cast_sub (by omega)]
    refine ⟨p - n, ⟨hcounted, hhead, ?_, ?_, ?_, ?_, ?_⟩, fun hf => absurd hf hback, fun _ => ?_⟩
    · exact (Nat.sub_le _ _).trans hle
    · omega
    · intro data hwriter
      rw [hbackward.free] at hwriter
      cases hwriter
    · intro _ hf
      exact absurd hf hback
    · intro _ _
      have hfar : t - s.span ≤ p - n := by omega
      exact ⟨htail.trans hbackward.tail, hdir' (-1) hbackward.dir, hbackward.free, hfar⟩
    · omega

/-- Nothing is committed to a run: what is left to show while the engine rests. -/
theorem Indexed.resting {k t p : Nat} {s : Playback} (hcounted : Counted k t s)
    (hrun : s.running = false) (hhead : s.buf.player.head = (p : Word))
    (hbehind : p ≤ published t s.writer) (hroom : t ≤ p + 2 ^ k)
    (hwriting : ∀ data, s.writer = some ⟨data, false⟩ →
      t ≤ p + (s.buf.fifo.inIndex - s.buf.fifo.outIndex).toNat ∧
        (s.buf.fifo.inIndex - s.buf.fifo.outIndex).toNat ≤ 2 ^ k) : Indexed k t p s := by
  have hidle : ¬s.running = true := by simp [hrun]
  exact ⟨hcounted, hhead, hbehind, hroom, hwriting, fun hr => absurd hr hidle,
    fun hr => absurd hr hidle⟩

theorem Indexed.commit {k t p : Nat} {s : Playback} (h : Indexed k t p s) {buf : Pulsebuf}
    {o : CncRunOptions} (hbuf : buf = s.buf ∨ buf = s.buf.synced) (hstarting : s.starting = some o)
    (hfree : s.writer = none) (hreach : s.Reaches o) {s' : Playback}
    (hs' : s' = { s with
      buf := { buf with engine := buf.setRegs o }
      starting := none
      running := true
      runningBackward := o.backward })
    (hcounted : Counted k t s') : Indexed k t p s' := by
  have hplayer := Pulsebuf.player_setRegs buf o
  have hbuf' := h.fetched hbuf
  have htail : s'.buf.player.tail =
      if o.backward then buf.backtrackDeadStop else buf.fifo.inIndex := by
    rw [hs']
    exact congrArg Player.tail hplayer
  have hdir : s'.buf.player.dir = if o.backward then 0xFFFFFFFF else 1 := by
    rw [hs']
    exact congrArg Player.dir hplayer
  have hhead : s'.buf.player.head = (p : Word) := by
    rw [hs']
    exact (congrArg Player.head hplayer).trans hbuf'.head
  have hwriter : s'.writer = none := by
    rw [hs']
    exact hfree
  have hback : s'.runningBackward = o.backward := by
    rw [hs']
  have hspan : s'.span = s.span := by
    rw [hs']
    rcases hbuf with rfl | rfl
    · dsimp only [span]
    · dsimp only [span, Pulsebuf.synced, Kfifo.size]
  have hstop : buf.backtrackDeadStop = ((t - s.span : Nat) : Word) := by
    have hin : buf.backtrackDeadStop = s.buf.backtrackDeadStop := by
      rcases hbuf with rfl | rfl <;> rfl
    rw [hin, Pulsebuf.backtrackDeadStop, h.written, Nat.cast_sub (span_le h.toCounted).1, span,
      natCast_toNat]
  have hpub : published t s'.writer = t := by
    rw [hwriter]
    rfl
  have hle : p ≤ t := h.behind.trans (published_le t s.writer)
  refine ⟨hcounted, hhead, by rwa [hpub], h.room, ?_, ?_, ?_⟩
  · intro data hw
    rw [hwriter] at hw
    cases hw
  · intro _ hf
    rw [hback] at hf
    rw [hf] at htail hdir
    refine ⟨?_, .inl hdir⟩
    rw [htail, hpub]
    exact hbuf'.written
  · intro _ hb
    rw [hback] at hb
    rw [hb] at htail hdir
    refine ⟨?_, .inl hdir, hwriter, ?_⟩
    · rw [htail, hspan]
      exact hstop
    · have hne := h.asked o hstarting hb
      have hpos : (0 : Word) < cncBacktrackMaxSteps s.buf.fifo.size
          (s.buf.fifo.inIndex - s.buf.player.head) s.buf.totalBytes
          (cncBacktrackDecelSteps s.stepFreq s.rampRate) :=
        Nat.lt_of_lt_of_le (zeroExtend_pos hne) (BitVec.not_lt.mp (hreach hb hne))
      have hfits : (s.buf.fifo.inIndex - s.buf.player.head).toNat ≤ s.buf.fifo.size.toNat := by
        have hroom := h.room
        rw [h.unplayed, h.shares.size_toNat]
        omega
      have hspan' : (s.buf.fifo.inIndex - s.buf.player.head).toNat < s.span :=
        unplayed_lt_span hpos hfits
      rw [h.unplayed] at hspan'
      rw [hspan]
      omega

theorem Indexed.effect {k t p : Nat} {s s' : Playback} {a : Action} {obs : List Obs}
    (h : Indexed k t p s) (ha : a.settles = true) (he : Effect s a obs s') :
    ∃ q, Indexed k (obs.foldl tally t) q s' ∧
      ((s.runningBackward = false ∨ ∀ es, obs ≠ [.played es]) → q = obs.foldl playOn p) := by
  have hcounted := h.toCounted.effect he
  cases he with
  | look freq rate hbuf hobs =>
      have hkeep : obs.foldl tally t = t ∧ obs.foldl playOn p = p := by
        rcases hobs with rfl | ⟨e, rfl⟩ <;> exact ⟨rfl, rfl⟩
      rw [hkeep.1] at hcounted ⊢
      have hf := h.fetched hbuf
      refine ⟨p, ⟨hcounted, hf.head, hf.behind, hf.room, hf.writing, ?_, ?_⟩, fun _ => hkeep.2.symm⟩
      · intro hrun hback
        exact ⟨(hf.forward hrun hback).tail, (hf.forward hrun hback).dir⟩
      · intro hrun hback
        have hb := hf.backward hrun hback
        exact ⟨hb.tail, hb.dir, hb.free, hb.ahead⟩
  | reserve data hfree _ hahead _ =>
      have hf := h.fetched (.inr rfl)
      refine ⟨p, ⟨hcounted, hf.head, ?_, hf.room, ?_, ?_, ?_⟩, fun _ => rfl⟩
      · exact h.behind.trans (published_le t s.writer)
      · intro data' _
        have hunplayed : (s.buf.synced.fifo.inIndex - s.buf.synced.fifo.outIndex).toNat = t - p :=
          h.unplayed
        have hroom := h.room
        have hpos := Nat.two_pow_pos k
        change t ≤ p + (s.buf.synced.fifo.inIndex - s.buf.synced.fifo.outIndex).toNat ∧
          (s.buf.synced.fifo.inIndex - s.buf.synced.fifo.outIndex).toNat ≤ 2 ^ k
        omega
      · intro hrun hback
        have hforward := h.forward hrun hback
        have htail := hforward.tail
        rw [hfree] at htail
        exact ⟨htail, hforward.dir⟩
      · intro hrun hback
        simp [show s.running = true from hrun, show s.runningBackward = true from hback] at hahead
  | copy data hwriter hfit hc =>
      have hplayer := Pulsebuf.player_store s.buf data
      obtain ⟨hwritten, hsmall⟩ := h.writing data hwriter
      have havail := h.shares.avail_toNat hsmall
      have hle := h.behind
      rw [hwriter] at hle
      rw [← hc] at hplayer
      have hpub : published (t + data.length) (some ⟨data, true⟩) = t := Nat.add_sub_cancel _ _
      refine ⟨p, ⟨hcounted, ?_, ?_, ?_, ?_, ?_, ?_⟩, fun _ => rfl⟩
      · exact (congrArg Player.head hplayer).trans h.head
      · exact hle.trans (Nat.le_of_eq hpub.symm)
      · change t + data.length ≤ p + 2 ^ k
        omega
      · intro data' hw
        cases hw
      · intro hrun hback
        have hforward := h.forward hrun hback
        have htail := hforward.tail
        rw [hwriter] at htail
        have hsame : (t : Word) = (published (t + data.length) (some ⟨data, true⟩) : Word) := by
          rw [hpub]
        refine ⟨((congrArg Player.tail hplayer).trans htail).trans hsame, ?_⟩
        exact hforward.dir.imp (congrArg Player.dir hplayer).trans (congrArg Player.dir hplayer).trans
      · intro hrun hback
        have hnone := (h.backward hrun hback).free
        rw [hwriter] at hnone
        cases hnone
  | rollback bs e hwriter _ hc _ =>
      have hplayer := Pulsebuf.player_store s.buf bs
      rw [← hc] at hplayer
      refine ⟨p, ⟨hcounted, ?_, ?_, h.room, ?_, ?_, ?_⟩, fun _ => rfl⟩
      · exact (congrArg Player.head hplayer).trans h.head
      · exact h.behind.trans (published_le t s.writer)
      · intro data' hw
        cases hw
      · intro hrun hback
        have hforward := h.forward hrun hback
        have htail := hforward.tail
        rw [hwriter] at htail
        refine ⟨(congrArg Player.tail hplayer).trans htail, ?_⟩
        exact hforward.dir.imp (congrArg Player.dir hplayer).trans (congrArg Player.dir hplayer).trans
      · intro hrun hback
        have hnone := (h.backward hrun hback).free
        rw [hwriter] at hnone
        cases hnone
  | publish data hwriter hc =>
      have hplayer := Pulsebuf.player_publishTail s.buf
      rw [← hc] at hplayer
      refine ⟨p, ⟨hcounted, ?_, ?_, h.room, ?_, ?_, ?_⟩, fun _ => rfl⟩
      · exact (congrArg Player.head hplayer).trans h.head
      · exact h.behind.trans (published_le t s.writer)
      · intro data' hw
        cases hw
      · intro hrun hback
        have hforward := h.forward hrun hback
        refine ⟨(congrArg Player.tail hplayer).trans h.written, ?_⟩
        exact hforward.dir.imp (congrArg Player.dir hplayer).trans (congrArg Player.dir hplayer).trans
      · intro hrun hback
        have hnone := (h.backward hrun hback).free
        rw [hwriter] at hnone
        cases hnone
  | unpublished hload _ =>
      subst hload
      cases ha
  | check o hidle _ _ _ =>
      have hf := h.fetched (.inr rfl)
      exact ⟨p, .resting hcounted hidle hf.head hf.behind hf.room hf.writing, fun _ => rfl⟩
  | giveUp e hbuf hstarting _ =>
      have hf := h.fetched hbuf
      exact ⟨p, .resting hcounted (h.not_running hstarting) hf.head hf.behind hf.room hf.writing,
        fun _ => rfl⟩
  | abandon o e hbuf hstarting _ hc =>
      have hf := h.fetched hbuf
      have hhead := (Pulsebuf.head_setRegs _ o hc).trans hf.head
      exact ⟨p, .resting hcounted (h.not_running hstarting) hhead hf.behind hf.room hf.writing,
        fun _ => rfl⟩
  | commit o hbuf hstarting hfree _ hreach hc =>
      subst hc
      exact ⟨p, h.commit hbuf hstarting hfree hreach rfl hcounted, fun _ => rfl⟩
  | tick htick hrun hexec =>
      obtain ⟨q, hq, hforward, -⟩ := h.tick (.tick htick hrun hexec) hrun hexec
      exact ⟨q, hq, fun hor => hforward (hor.resolve_right fun hquiet => hquiet _ rfl)⟩
  | stop => exact ⟨p, .resting hcounted rfl h.head h.behind h.room h.writing, fun _ => rfl⟩
  | @wipe c data position hidle hfree hc =>
      have hhead : c.m.player.head = if data then 0 else s.buf.player.head := by
        rw [hc, player_clear]
        exact Player.clear_head _ _ _
      have hwriting : ∀ data', s.writer ≠ some ⟨data', false⟩ := by
        intro data' hw
        rw [hfree] at hw
        cases hw
      cases data with
      | false =>
          refine ⟨p, .resting hcounted hidle (hhead.trans h.head) h.behind h.room ?_, fun _ => rfl⟩
          intro data' hw
          exact absurd hw (hwriting data')
      | true =>
          refine ⟨0, .resting hcounted hidle hhead (Nat.zero_le _) (Nat.zero_le _) ?_, fun _ => rfl⟩
          intro data' hw
          exact absurd hw (hwriting data')
  | wipeFailed data e hidle hfree hload =>
      cases data with
      | false => exact ⟨p, .resting hcounted hidle h.head h.behind h.room h.writing, fun _ => rfl⟩
      | true =>
          obtain ⟨position, rfl⟩ := hload rfl
          cases ha

/-- The play position exists in every state that transfers alone have shaped. -/
theorem indexed_run {ringMb : Nat} {args : ScriptArgs} {as : List Action} {out : List Obs}
    {s : Playback} (h : System.execute step as (probe ringMb args) = some (out, s))
    (htransfers : ∀ a ∈ as, a.transfers = true) : ∃ k p, Indexed k (enqueued out) p s := by
  obtain ⟨k, hinit⟩ := indexed_probe ringMb args
  refine ⟨k, System.execute_gathers (I := fun t s => ∃ p, Indexed k t p s) ?_ ⟨0, hinit⟩
    (System.along_of_forall htransfers _) h⟩
  rintro t s a r ⟨p, hs⟩ ha hstep
  obtain ⟨q, hq, -⟩ := hs.effect (Action.settles_of_transfers ha) (step_effect hstep)
  exact ⟨q, hq⟩

end Playback

end Glowforge.Cnc
