import Glowforge.Cnc.Progress
import Glowforge.Cnc.PulseFifo

/-! The history in the ring. A copy that fails is rolled back in the write index and not
in memory: past the end of the first round of the ring, the cells it has filled are those
of the oldest bytes that a backward run may still come to. -/
namespace Glowforge.Cnc
open Foundation Sdma

/-- The bytes taken by the kfifo since it was last reset. -/
def record (js : List Byte) : Obs → List Byte
  | .queued data => js ++ data
  | .emptied => []
  | _ => js

def job (obs : List Obs) : List Byte := obs.foldl record []

namespace Pulsebuf

def byteAt (b : Pulsebuf) (i : Word) : Byte := b.player.mem (b.address i)

theorem window_getElem? (b : Pulsebuf) (p n : Nat) {j : Nat} (hj : j < n) :
    (b.window p n)[j]? = some (b.byteAt ((p + j : Nat) : Word)) := by
  rw [window, ringWindow, List.getElem?_map, List.getElem?_range hj]
  rfl

end Pulsebuf

namespace Playback

/-- A copy that fails fills no cell of the bytes counted since the last clear. -/
def SparesHistory (s : Playback) (a : Action) : Prop :=
  s.spilled a = [] ∨ s.buf.totalBytes.toNat + (s.spilled a).length ≤ s.buf.fifo.size.toNat

instance (s : Playback) (a : Action) : Decidable (s.SparesHistory a) :=
  inferInstanceAs (Decidable (_ ∨ _))

/-- From index `low` on the ring holds the job, unplayed and counted as history. -/
structure Recorded (k : Nat) (js : List Byte) (p low : Nat) (s : Playback) : Prop
    extends Indexed k js.length p s where
  played : low ≤ p
  spanned : low + s.span ≤ js.length
  resident : js.length ≤ low + 2 ^ k
  cells : s.buf.window low (js.length - low) = js.drop low

theorem recorded_probe (ringMb : Nat) (args : ScriptArgs) :
    ∃ k, Recorded k [] 0 0 (probe ringMb args) := by
  obtain ⟨k, h⟩ := indexed_probe ringMb args
  refine ⟨k, h, Nat.le_refl 0, ?_, Nat.zero_le _, rfl⟩
  have hspan := (span_le h.toCounted).1
  rw [Nat.zero_add]
  exact hspan

theorem Recorded.le {k p low : Nat} {js : List Byte} {s : Playback} (h : Recorded k js p low s) :
    p ≤ js.length :=
  h.behind.trans (published_le _ s.writer)

theorem Recorded.raise {k p low m : Nat} {js : List Byte} {s : Playback}
    (h : Recorded k js p low s) (hlow : low ≤ m) (hm : m ≤ js.length) :
    s.buf.window m (js.length - m) = js.drop m := by
  have hcells := h.cells
  have hsplit : js.length - low = (m - low) + (js.length - m) := by omega
  rw [hsplit, Pulsebuf.window_add, Nat.add_sub_cancel' hlow] at hcells
  have hdrop := congrArg (List.drop (m - low)) hcells
  rwa [List.drop_left' (s.buf.window_length _ _), List.drop_drop, Nat.add_sub_cancel' hlow] at hdrop

theorem Recorded.keep {k p q low : Nat} {js : List Byte} {s s' : Playback}
    (h : Recorded k js p low s) (hindexed : Indexed k js.length q s') (hq : low ≤ q)
    (hspan : s'.span = s.span) (hwindow : s'.buf.window low (js.length - low) =
      s.buf.window low (js.length - low)) : Recorded k js q low s' := by
  refine ⟨hindexed, hq, ?_, h.resident, hwindow.trans h.cells⟩
  rw [hspan]
  exact h.spanned

theorem span_copied {k t : Nat} {s : Playback} (h : Counted k t s) {b : Pulsebuf} (n : Nat)
    (hsize : b.fifo.size = s.buf.fifo.size)
    (htotal : b.totalBytes = s.buf.totalBytes + BitVec.ofNat 64 n) :
    (cncBacktrackSpan b.fifo.size b.totalBytes).toNat ≤ s.span + n := by
  have hgrown : b.totalBytes.toNat ≤ s.buf.totalBytes.toNat + n := by
    rw [htotal, BitVec.toNat_add, BitVec.toNat_ofNat]
    have hmod := Nat.mod_le n (2 ^ 64)
    have hsum := Nat.mod_le (s.buf.totalBytes.toNat + n % 2 ^ 64) (2 ^ 64)
    omega
  rw [cncBacktrackSpan_toNat, hsize, span, cncBacktrackSpan_toNat, h.shares.size_toNat]
  omega

theorem Recorded.stored {k p low : Nat} {js : List Byte} {s : Playback} {c : Config Label}
    (h : Recorded k js p low s) (bs : List Byte) (hc : c = (s.buf.store bs).engine) {m : Nat}
    (hlow : low ≤ m) (hm : m ≤ js.length) (hfit : js.length + bs.length ≤ m + 2 ^ k) :
    Pulsebuf.window { s.buf with engine := c } m (js.length - m) = js.drop m ∧
      Pulsebuf.window { s.buf with engine := c } js.length bs.length = bs := by
  obtain ⟨hkeep, hstored⟩ := Pulsebuf.window_store h.shares bs h.written hc hm (by omega)
  exact ⟨hkeep.trans (h.raise hlow hm), hstored⟩

/-- A copy that is kept adds its bytes to the record, and takes the cells of the oldest. -/
theorem Recorded.copy {k p low : Nat} {js data : List Byte} {s s' : Playback} {c : Config Label}
    (h : Recorded k js p low s) (hc : c = (s.buf.store data).engine)
    (hindexed : Indexed k (js.length + data.length) p s') (hspan : s'.span ≤ s.span + data.length)
    (hwindow : ∀ i n, s'.buf.window i n = Pulsebuf.window { s.buf with engine := c } i n) :
    Recorded k (js ++ data) p (max low (js.length + data.length - 2 ^ k)) s' := by
  have hle := h.le
  have hplayed := h.played
  have hspanned := h.spanned
  have hresident := h.resident
  have hroom := hindexed.room
  have hsmall := (span_le hindexed.toCounted).2
  have hjs : (js ++ data).length = js.length + data.length := List.length_append
  generalize hm : max low (js.length + data.length - 2 ^ k) = m
  obtain ⟨hkept, hdata⟩ := @Recorded.stored k p low js s c h data hc m (by omega) (by omega) (by omega)
  have hindexed' : Indexed k (js ++ data).length p s' := by
    rw [hjs]
    exact hindexed
  refine ⟨hindexed', by omega, ?_, ?_, ?_⟩
  · rw [hjs]
    omega
  · rw [hjs]
    omega
  · have hsplit : js.length + data.length - m = (js.length - m) + data.length := by omega
    rw [hwindow, hjs, hsplit, Pulsebuf.window_add, hkept, Nat.add_sub_cancel' (by omega), hdata,
      List.drop_append_of_le_length (by omega)]

theorem Recorded.effect {k p low : Nat} {js : List Byte} {s s' : Playback} {a : Action}
    {obs : List Obs} (h : Recorded k js p low s) (ha : a.transfers = true)
    (hspares : s.SparesHistory a) (he : Effect s a obs s') :
    ∃ q m, Recorded k (obs.foldl record js) q m s' := by
  obtain ⟨q, hindexed, hq⟩ := h.toIndexed.effect (Action.settles_of_transfers ha) he
  have hle := h.le
  have hplayed := h.played
  have hspanned := h.spanned
  have hresident := h.resident
  cases he with
  | look freq rate hbuf hobs =>
      have hkeep : obs.foldl tally js.length = js.length ∧ obs.foldl playOn p = p ∧
          obs.foldl record js = js ∧ ∀ es, obs ≠ [.played es] := by
        rcases hobs with rfl | ⟨e, rfl⟩
        · exact ⟨rfl, rfl, rfl, by simp⟩
        · exact ⟨rfl, rfl, rfl, by simp⟩
      obtain ⟨ht, hp, hjs, hquiet⟩ := hkeep
      obtain rfl : q = p := (hq (.inr hquiet)).trans hp
      rw [ht] at hindexed
      rw [hjs]
      refine ⟨q, low, h.keep hindexed hplayed ?_ (Pulsebuf.window_synced hbuf _ _)⟩
      rcases hbuf with rfl | rfl <;> rfl
  | reserve data hfree hlen hahead hroom =>
      obtain rfl : q = p := hq (.inr (by simp))
      exact ⟨q, low, h.keep hindexed hplayed rfl (Pulsebuf.window_synced (.inr rfl) _ _)⟩
  | @copy c data hwriter hfit hc =>
      obtain rfl : q = p := hq (.inr (by simp))
      refine ⟨q, _, h.copy hc hindexed ?_ fun i n => rfl⟩
      exact span_copied h.toCounted data.length rfl rfl
  | rollback bs e hwriter hfit hc hspill =>
      obtain rfl : q = p := hq (.inr (by simp))
      obtain ⟨hwritten, hsmall⟩ := h.writing _ hwriter
      have havail := h.shares.avail_toNat hsmall
      rcases hspares with hnone | hspare
      · rw [← hspill] at hnone
        subst hnone
        refine ⟨q, low, h.keep hindexed hplayed rfl ?_⟩
        apply Pulsebuf.window_setEngine
        rw [hc]
        rfl
      · rw [← hspill, h.shares.size_toNat] at hspare
        have hcounted : s.span ≤ s.buf.totalBytes.toNat := by
          rw [span, cncBacktrackSpan_toNat]
          exact Nat.min_le_left _ _
        obtain ⟨hkept, -⟩ := h.stored bs hc (m := max low (js.length + bs.length - 2 ^ k))
          (Nat.le_max_left _ _) (by omega) (by omega)
        refine ⟨q, max low (js.length + bs.length - 2 ^ k), hindexed, by omega, ?_, ?_, hkept⟩
        · change max low (js.length + bs.length - 2 ^ k) + s.span ≤ js.length
          omega
        · change js.length ≤ _
          omega
  | publish data hwriter hc =>
      obtain rfl : q = p := hq (.inr (by simp))
      have hmem := congrArg Player.mem (Pulsebuf.player_publishTail s.buf)
      rw [← hc] at hmem
      exact ⟨q, low, h.keep hindexed hplayed rfl (Pulsebuf.window_setEngine _ hmem _ _)⟩
  | unpublished hload hwriter =>
      subst hload
      cases ha
  | check o hidle hfree hcheck hcall =>
      obtain rfl : q = p := hq (.inr (by simp))
      exact ⟨q, low, h.keep hindexed hplayed rfl (Pulsebuf.window_synced (.inr rfl) _ _)⟩
  | giveUp e hbuf hstarting hfree =>
      obtain rfl : q = p := hq (.inr (by simp))
      refine ⟨q, low, h.keep hindexed hplayed ?_ (Pulsebuf.window_synced hbuf _ _)⟩
      rcases hbuf with rfl | rfl <;> rfl
  | abandon o e hbuf hstarting hfree hc =>
      obtain rfl : q = p := hq (.inr (by simp))
      refine ⟨q, low, h.keep hindexed hplayed ?_ ?_⟩
      · rcases hbuf with rfl | rfl <;> rfl
      · exact (Pulsebuf.window_setEngine _ (Pulsebuf.mem_setRegs _ o hc) _ _).trans
          (Pulsebuf.window_synced hbuf _ _)
  | commit o hbuf hstarting hfree hidle hreach hc =>
      obtain rfl : q = p := hq (.inr (by simp))
      refine ⟨q, low, h.keep hindexed hplayed ?_ ?_⟩
      · rcases hbuf with rfl | rfl <;> rfl
      · exact (Pulsebuf.window_setEngine _ (Pulsebuf.mem_setRegs _ o (.inl hc)) _ _).trans
          (Pulsebuf.window_synced hbuf _ _)
  | @tick fuel es c htick hrun hexec =>
      obtain ⟨ph, hw⟩ := h.shares.waits
      obtain ⟨n, ph', hticked, -⟩ := tick_of_exec hw hexec
      have hmem : c.m.player.mem = s.buf.player.mem := congrArg Player.Setup.mem hticked.setup
      have hlow : low ≤ q := by
        by_cases hback : s.runningBackward = true
        · have hahead : js.length - s.span ≤ q := (hindexed.backward hrun hback).ahead
          omega
        · have hon : q = p + (reads es).length := hq (.inl (Bool.eq_false_iff.mpr hback))
          omega
      exact ⟨q, low, h.keep hindexed hlow rfl (Pulsebuf.window_setEngine _ hmem _ _)⟩
  | stop =>
      obtain rfl : q = p := hq (.inr (by simp))
      exact ⟨q, low, h.keep hindexed hplayed rfl rfl⟩
  | wipe data position hidle hfree hc =>
      cases data with
      | false =>
          obtain rfl : q = p := hq (.inr (by simp))
          refine ⟨q, low, h.keep hindexed hplayed rfl ?_⟩
          apply Pulsebuf.window_setEngine
          rw [hc, player_clear, Player.clear_mem]
          rfl
      | true =>
          obtain rfl : q = 0 := hq (.inr (by simp))
          refine ⟨0, 0, hindexed, Nat.le_refl 0, ?_, Nat.zero_le _, rfl⟩
          have hspan := (span_le hindexed.toCounted).1
          rw [Nat.zero_add]
          exact hspan
  | wipeFailed data e hidle hfree hload =>
      cases data with
      | false =>
          obtain rfl : q = p := hq (.inr (by simp))
          exact ⟨q, low, h.keep hindexed hplayed rfl rfl⟩
      | true =>
          obtain ⟨position, rfl⟩ := hload rfl
          cases ha

theorem Recorded.byteAt {k p low : Nat} {js : List Byte} {s : Playback}
    (h : Recorded k js p low s) {j : Nat} (hlow : low ≤ j) (hj : j < js.length) :
    js[j]? = some (s.buf.byteAt (j : Word)) := by
  have hcell := s.buf.window_getElem? low (js.length - low) (j := j - low) (by omega)
  rw [h.cells, List.getElem?_drop, Nat.add_sub_cancel' hlow] at hcell
  exact hcell

theorem Recorded.counted {k p low : Nat} {js : List Byte} {s : Playback}
    (h : Recorded k js p low s) {back : Nat} (hpos : 0 < back) (hback : back ≤ s.span) :
    js[js.length - back]? = some (s.buf.byteAt (s.buf.fifo.inIndex - back)) := by
  have hspan := (span_le h.toCounted).1
  have hspanned := h.spanned
  have hindex : s.buf.fifo.inIndex - back = ((js.length - back : Nat) : Word) := by
    rw [h.written, Nat.cast_sub (by omega)]
  rw [hindex]
  exact h.byteAt (by omega) (by omega)

theorem span_eq {k t : Nat} {s : Playback} (h : Counted k t s) :
    s.span = min (t % 2 ^ 64) (2 ^ k) := by
  rw [span, cncBacktrackSpan_toNat, h.shares.size_toNat, h.total, BitVec.natCast_eq_ofNat,
    BitVec.toNat_ofNat]

theorem Recorded.reads {k p low fuel : Nat} {js : List Byte} {s : Playback} {es : List Event}
    {c : Config Label} (h : Recorded k js p low s) (hrun : s.running = true)
    (hexec : Engine.exec script.step fuel s.buf.engine = some (es, c)) {i : Nat} {e : Word × Byte}
    (hread : (reads es)[i]? = some e) :
    e.1 = s.buf.address (s.buf.player.head + i • s.buf.player.dir) ∧
      ∀ back, back = (s.buf.fifo.inIndex - (s.buf.player.head + i • s.buf.player.dir)).toNat →
        0 < back → back ≤ js.length ∧ js[js.length - back]? = some e.2 := by
  obtain ⟨ph, hw⟩ := h.shares.waits
  obtain ⟨n, ph', htick, -⟩ := tick_of_exec hw hexec
  have hwalk := htick.walked
  have hcells : Sdma.reads es = s.buf.player.cells n := hwalk.reads
  have hi : i < n := by
    have hlen := (List.getElem?_eq_some_iff.mp hread).1
    rwa [hcells, Player.cells, List.length_map, List.length_range] at hlen
  have he : e = (s.buf.address (s.buf.player.head + i • s.buf.player.dir),
      s.buf.byteAt (s.buf.player.head + i • s.buf.player.dir)) := by
    rw [hcells, Player.cells, List.getElem?_map, List.getElem?_range hi] at hread
    have haddress (x : Word) : s.buf.player.cellAddress x = s.buf.address x := by
      rw [Player.cellAddress, Pulsebuf.address, h.shares.mask, h.shares.base]
    have hpair : e = (s.buf.player.cellAddress (s.buf.player.head + i • s.buf.player.dir),
        s.buf.player.cell (s.buf.player.head + i • s.buf.player.dir)) := (Option.some.inj hread).symm
    rw [hpair, Pulsebuf.byteAt, ← haddress]
    rfl
  obtain ⟨q, hq, hforward, hbackward⟩ := h.toIndexed.tick (.tick rfl hrun hexec) hrun hexec
  have hcount : (Sdma.reads es).length = n := by
    rw [hcells, Player.cells, List.length_map, List.length_range]
  have hle := h.le
  have hplayed := h.played
  have hspanned := h.spanned
  have hresident := h.resident
  have hsize := h.shares.ring.size_lt
  -- the index read, counted from the start of the job
  obtain ⟨j, hindex, hlow, hj⟩ : ∃ j : Nat, s.buf.player.head + i • s.buf.player.dir = (j : Word) ∧
      low ≤ j ∧ j ≤ js.length := by
    by_cases hback : s.runningBackward = true
    · have hdir := (h.backward hrun hback).dir.resolve_right (hwalk.moving (Nat.ne_zero_of_lt hi))
      have hahead : js.length - s.span ≤ q := (hq.backward hrun hback).ahead
      have hsum := hbackward hback
      refine ⟨p - i, ?_, by omega, by omega⟩
      rw [h.head, hdir, neg_nsmul, nsmul_one, ← sub_eq_add_neg, ← Nat.cast_sub (by omega)]
    · have hnot : s.runningBackward = false := Bool.eq_false_iff.mpr hback
      have hdir := (h.forward hrun hnot).dir.resolve_right (hwalk.moving (Nat.ne_zero_of_lt hi))
      have hsum := hforward hnot
      have hend : q ≤ js.length := hq.behind.trans (published_le _ _)
      refine ⟨p + i, ?_, by omega, by omega⟩
      rw [h.head, hdir, nsmul_one, ← Nat.cast_add]
  rw [he]
  refine ⟨rfl, ?_⟩
  rintro back rfl hpos
  have hdistance : (s.buf.fifo.inIndex - (s.buf.player.head + i • s.buf.player.dir)).toNat =
      js.length - j := by
    rw [h.written, hindex, ← Nat.cast_sub hj, BitVec.natCast_eq_ofNat, BitVec.toNat_ofNat,
      Nat.mod_eq_of_lt (by omega)]
  rw [hdistance] at hpos ⊢
  refine ⟨Nat.sub_le _ _, ?_⟩
  rw [Nat.sub_sub_self hj, hindex]
  exact h.byteAt hlow (by omega)

theorem recorded_run {ringMb : Nat} {args : ScriptArgs} {as : List Action} {out : List Obs}
    {s : Playback} (hexec : System.execute step as (probe ringMb args) = some (out, s))
    (hguard : System.Along step (fun s a => a.transfers = true ∧ s.SparesHistory a) as
      (probe ringMb args)) : ∃ k p low, Recorded k (job out) p low s := by
  obtain ⟨k, hinit⟩ := recorded_probe ringMb args
  have hgather := System.execute_gathers (I := fun js s => ∃ p low, Recorded k js p low s)
    (f := record) ?_ ⟨0, 0, hinit⟩ hguard hexec
  · exact ⟨k, hgather⟩
  · rintro js s a r ⟨p, low, hs⟩ ha hstep
    exact hs.effect ha.1 ha.2 (step_effect hstep)

/-- In every run whose transfers succeed and whose failing copies spare the history: each
byte a tick reads, in either direction, from an index below the write index is the job's
byte at that index; and a write that fails leaves the bytes that are counted as history. -/
theorem history_survives {ringMb : Nat} {args : ScriptArgs} {as : List Action} {out : List Obs}
    {s : Playback} (hexec : System.execute step as (probe ringMb args) = some (out, s))
    (hguard : System.Along step (fun s a => a.transfers = true ∧ s.SparesHistory a) as
      (probe ringMb args)) :
    (∀ fuel es s', s.step (.tick fuel) = some ([.played es], s') → ∀ (i : Nat) (e : Word × Byte),
      (reads es)[i]? = some e →
        e.1 = s.buf.address (s.buf.player.head + i • s.buf.player.dir) ∧
        ∀ back, back = (s.buf.fifo.inIndex - (s.buf.player.head + i • s.buf.player.dir)).toNat →
          0 < back → back ≤ (job out).length ∧ (job out)[(job out).length - back]? = some e.2) ∧
    ∀ a e s', a.transfers = true → s.SparesHistory a → s.step a = some ([.failed e], s') →
      ∀ back : Nat, 0 < back → back ≤ s.span →
        s'.buf.byteAt (s.buf.fifo.inIndex - back) = s.buf.byteAt (s.buf.fifo.inIndex - back) := by
  obtain ⟨k, p, low, h⟩ := recorded_run hexec hguard
  constructor
  · intro fuel es s' hstep i e hread
    unfold step at hstep
    simp only at hstep
    split at hstep
    · obtain ⟨⟨es', c⟩, htick, heq⟩ := Option.map_eq_some_iff.mp hstep
      injection heq with hes _
      injection hes with hes _
      injection hes with hes
      rw [← hes] at hread
      exact h.reads ‹_› htick hread
    · cases hstep
  · intro a e s' ha hspares hstep back hpos hback
    obtain ⟨q, m, h'⟩ := h.effect ha hspares (step_effect hstep)
    have hspan : s'.span = s.span := (span_eq h'.toCounted).trans (span_eq h.toCounted).symm
    have hindex : s'.buf.fifo.inIndex = s.buf.fifo.inIndex := h'.written.trans h.written.symm
    have hafter := h'.counted hpos (hspan.symm ▸ hback)
    rw [hindex] at hafter
    exact Option.some.inj (hafter.symm.trans (h.counted hpos hback))

private theorem wrapped :
    ∃ s, Leads (probe 1 (.over fun _ => 0)) s ∧ Blank .ready 20 (2 ^ 20) (2 ^ 15 + 2) s ∧
      s.writer = some ⟨[1, 1], false⟩ ∧ 2 ≤ s.buf.fifo.avail.toNat := by
  obtain ⟨s₀, hl₀, h₀, hfree₀, hasked₀, hidle₀, hback₀⟩ := blank_slow
  obtain ⟨s₁, hl₁, h₁, hfree₁, hrun₁, hback₁, hasked₁⟩ :=
    h₀.write (n := 2 ^ 20 - 2 ^ 15) hfree₀ hback₀ (by omega)
  obtain ⟨s₂', s₂, hcheck, hcommit, h₂, hfree₂, -, hrun₂, hback₂⟩ :=
    h₁.start .run rfl hfree₁ (hasked₁.trans hasked₀) (hrun₁.trans hidle₀) hback₁ (by omega)
      (fun hb => nomatch hb)
  obtain ⟨c₃, hl₃, h₃⟩ := h₂.boot hrun₂ hback₂
  obtain ⟨c₄, hl₄, h₄⟩ := h₃.playForward (n := 2 ^ 15 + 2) hrun₂ hback₂ hfree₂ (by omega) (by omega)
  obtain ⟨s₅, hl₅, h₅, hfree₅, -, hback₅, -⟩ := h₄.write (n := 2 ^ 15) hfree₂ hback₂ (by omega)
  obtain ⟨hbegin, h₆⟩ := h₅.begin [1, 1] hfree₅ hback₅ (by simp)
  have hfed := hl₀.leads.trans hl₁.leads
  have hran : Leads s₁ s₅ := (Leads.step rfl hcheck).trans ((Leads.step rfl hcommit).trans
    (hl₃.leads.trans (hl₄.leads.trans hl₅.leads)))
  refine ⟨_, hfed.trans (hran.trans (.step rfl hbegin)), ?_, rfl, ?_⟩
  · simpa using h₆
  · have hroom := (h₅.toIndexed.admits (n := 2) (by omega)).2
    exact hroom

/-- The copy stops after its first byte, in the cell of the first byte of the job. -/
theorem history_survives_false :
    ¬∀ (ringMb : Nat) (args : ScriptArgs) (as : List Action) (out : List Obs) (s : Playback),
      System.execute step as (probe ringMb args) = some (out, s) →
      (∀ a ∈ as, a.transfers = true) → ∀ a e s', a.transfers = true →
      s.step a = some ([.failed e], s') → ∀ back : Nat, 0 < back → back ≤ s.span →
      s'.buf.byteAt (s.buf.fifo.inIndex - back) = s.buf.byteAt (s.buf.fifo.inIndex - back) := by
  intro h
  obtain ⟨s, ⟨as, out, htransfers, hexec⟩, hblank, hwriter, hroom⟩ := wrapped
  have hfits : s.CopyFits [1, 1] (.fault 1 []) := by
    have hone : 1 ≤ min 2 s.buf.fifo.avail.toNat := by omega
    exact hone
  have hstep : s.step (.writeCopy (.fault 1 [])) = some ([.failed .EFAULT],
      (s.writeCopy [1, 1] (.fault 1 [])).2) := by
    have hgo : s.step (.writeCopy (.fault 1 [])) = some (s.writeCopy [1, 1] (.fault 1 [])) := by
      simp only [step, hwriter]
      exact if_pos hfits
    exact hgo
  have hspan : s.span = 2 ^ 20 := by
    rw [span_eq hblank.toCounted]
    omega
  have hkept := h 1 _ as out s hexec htransfers _ .EFAULT _ rfl hstep (2 ^ 20) (by omega) hspan.ge
  have hstart : s.buf.fifo.inIndex - ((2 ^ 20 : Nat) : Word) = 0 := by
    rw [hblank.written, sub_self]
  -- the write index and the start of the job share a cell
  have hcell : (0 : Word) &&& s.buf.fifo.mask = s.buf.fifo.inIndex &&& s.buf.fifo.mask := by
    have hround := hblank.shares.ring.and_add_size 0
    rwa [zero_add, ← hblank.written, eq_comm] at hround
  have hafter : (s.writeCopy [1, 1] (.fault 1 [])).2.buf.byteAt 0 = 1 := by
    have hmem : (s.writeCopy [1, 1] (.fault 1 [])).2.buf.byteAt 0 =
        Function.update s.buf.player.mem ((s.buf.fifo.inIndex &&& s.buf.fifo.mask) + s.buf.phys) 1
          (((0 : Word) &&& s.buf.fifo.mask) + s.buf.phys) := rfl
    rw [hmem, hcell, Function.update_self]
  have hbefore : s.buf.byteAt 0 = 0 := by
    rw [Pulsebuf.byteAt, hblank.mem]
  rw [hstart, hafter, hbefore] at hkept
  cases hkept

/-- Two bytes are fed, the copy of two more faults, and the run plays on. -/
theorem history_survives_refused :
    ∃ as out s, System.execute step as (probe 1 (.over fun _ => 0)) = some (out, s) ∧
      job out = [3, 4] ∧
      ∀ a e s', a.transfers = true → s.SparesHistory a → s.step a = some ([.failed e], s') →
        ∀ back : Nat, 0 < back → back ≤ s.span →
          s'.buf.byteAt (s.buf.fifo.inIndex - back) = s.buf.byteAt (s.buf.fifo.inIndex - back) := by
  have hrun : (System.execute step [.writeBegin [3, 4] true, .writeCopy .all, .writePublish true,
      .writeBegin [5, 6] true, .writeCopy (.fault 1 [7]), .startCheck .run true true,
      .startCommit .granted, .tick 200, .tick 200]
      (probe 1 (.over fun _ => 0))).map (fun r => job r.1) = some [3, 4] := by
    decide +kernel
  obtain ⟨⟨out, s⟩, hexec, hjob⟩ := Option.map_eq_some_iff.mp hrun
  have hspared : System.check step (fun s a => a.transfers && decide (s.SparesHistory a))
      [.writeBegin [3, 4] true, .writeCopy .all, .writePublish true, .writeBegin [5, 6] true,
        .writeCopy (.fault 1 [7]), .startCheck .run true true, .startCommit .granted, .tick 200,
        .tick 200] (probe 1 (.over fun _ => 0)) = true := by
    decide +kernel
  refine ⟨_, out, s, hexec, hjob,
    (history_survives hexec ((System.along_of_check hspared).mono ?_)).2⟩
  intro s a htest
  obtain ⟨htransfers, hspares⟩ := (Bool.and_eq_true _ _).mp htest
  exact ⟨htransfers, of_decide_eq_true hspares⟩

end Playback

end Glowforge.Cnc
