import Glowforge.Cnc.Indexed
import Glowforge.Foundation.Fifo

/-! The ring as a queue. While runs go forward and transfers succeed, a write pushes
its bytes when it publishes them, a tick pops the bytes it plays, and a data clear
resets: the unplayed cells hold the queue, and behind it a copy not yet published. -/
namespace Glowforge.Cnc
open Foundation Sdma

def Obs.fifoOps : Obs → List (Fifo.Op Byte)
  | .accepted data => [.push data]
  | .played es => [.pop ((reads es).map Prod.snd)]
  | .cleared => [.reset]
  | _ => []

/-- The bytes copied into the ring and not yet published. -/
def inFlight : Option Writer → List Byte
  | some ⟨data, true⟩ => data
  | _ => []

theorem published_eq (t : Nat) (w : Option Writer) : published t w = t - (inFlight w).length := by
  rcases w with _ | ⟨data, _ | _⟩
  · rfl
  · rfl
  · rfl

namespace Pulsebuf

def window (b : Pulsebuf) (p n : Nat) : List Byte :=
  ringWindow b.phys b.fifo.mask b.player.mem p n

theorem window_length (b : Pulsebuf) (p n : Nat) : (b.window p n).length = n := by
  rw [window, ringWindow, List.length_map, List.length_range]

theorem window_add (b : Pulsebuf) (p m n : Nat) :
    b.window p (m + n) = b.window p m ++ b.window (p + m) n :=
  ringWindow_add _ _ _ p m n

theorem window_setEngine (b : Pulsebuf) {c : Config Label} (hmem : c.m.player.mem = b.player.mem)
    (p n : Nat) : window { b with engine := c } p n = b.window p n :=
  congrArg (fun mem => ringWindow b.phys b.fifo.mask mem p n) hmem

theorem window_synced {b b' : Pulsebuf} (hb : b' = b ∨ b' = b.synced) (p n : Nat) :
    b'.window p n = b.window p n := by
  rcases hb with rfl | rfl
  · rfl
  · rfl

theorem window_store {k t p : Nat} {b : Pulsebuf} {c : Config Label} (h : b.Shares k)
    (bs : List Byte) (hin : b.fifo.inIndex = (t : Word)) (hc : c = (b.store bs).engine)
    (hle : p ≤ t) (hfit : t - p + bs.length ≤ 2 ^ k) :
    window { b with engine := c } p (t - p) = b.window p (t - p) ∧
      window { b with engine := c } t bs.length = bs := by
  have hmem : c.m.player.mem = storeRing b.phys b.fifo.mask (t : Word) bs b.player.mem := by
    rw [hc, player_store, hin]
  have hwindow (i n : Nat) : window { b with engine := c } i n =
      ringWindow b.phys b.fifo.mask (storeRing b.phys b.fifo.mask (t : Word) bs b.player.mem) i n :=
    congrArg (fun mem => ringWindow b.phys b.fifo.mask mem i n) hmem
  rw [hwindow, hwindow]
  constructor
  · have hkeep := ringWindow_storeRing b.phys h.ring bs b.player.mem hfit (p := p)
    rwa [Nat.add_sub_cancel' hle] at hkeep
  · exact ringWindow_stored b.phys h.ring bs b.player.mem (by omega)

end Pulsebuf

namespace Playback

/-- `q` is what is queued to play. -/
structure Queued (k t p : Nat) (q : List Byte) (s : Playback) : Prop extends Indexed k t p s where
  onward : s.runningBackward = false
  asks : ∀ o, s.starting = some o → o.backward = false
  cells : s.buf.window p (t - p) = q ++ inFlight s.writer

theorem queued_probe (ringMb : Nat) (args : ScriptArgs) :
    ∃ k, Queued k 0 0 [] (probe ringMb args) := by
  obtain ⟨k, hindexed⟩ := indexed_probe ringMb args
  refine ⟨k, hindexed, rfl, ?_, rfl⟩
  intro o ho
  cases ho

theorem Queued.reads {k t p fuel : Nat} {q : List Byte} {s : Playback} {es : List Event}
    {c : Config Label} (h : Queued k t p q s) (hrun : s.running = true)
    (hexec : Engine.exec script.step fuel s.buf.engine = some (es, c)) :
    (reads es).map Prod.snd = s.buf.window p (reads es).length ∧
      c.m.player.mem = s.buf.player.mem := by
  obtain ⟨ph, hw⟩ := h.shares.waits
  obtain ⟨n, ph', htick, -⟩ := tick_of_exec hw hexec
  have hwalk := htick.walked
  have hcells : Sdma.reads es = s.buf.player.cells n := hwalk.reads
  have hlen : (Sdma.reads es).length = n := by
    rw [hcells, Player.cells, List.length_map, List.length_range]
  have hforward := h.forward hrun h.onward
  refine ⟨?_, congrArg Player.Setup.mem htick.setup⟩
  rw [hlen, hcells, Player.cells, List.map_map, Pulsebuf.window, ringWindow]
  apply List.map_congr_left
  intro j hj
  have hmoving : s.buf.player.dir = 1 :=
    hforward.dir.resolve_right (hwalk.moving (Nat.ne_zero_of_lt (List.mem_range.mp hj)))
  rw [Function.comp_apply, Player.cell, Player.cellAddress, hmoving, h.head, nsmul_one,
    ← Nat.cast_add, h.shares.mask, h.shares.base]

theorem Queued.front {k t p n : Nat} {q : List Byte} {s : Playback} (h : Queued k t p q s)
    (hn : p + n ≤ published t s.writer) :
    s.buf.window p n = q.take n ∧
      s.buf.window (p + n) (t - (p + n)) = q.drop n ++ inFlight s.writer := by
  have hlen : t - p = q.length + (inFlight s.writer).length := by
    rw [← s.buf.window_length p (t - p), h.cells, List.length_append]
  have hcells := h.cells
  rw [published_eq] at hn
  have hsplit : t - p = n + (t - (p + n)) := by omega
  have hfit : n ≤ q.length := by omega
  rw [hsplit, Pulsebuf.window_add] at hcells
  have hfront : (s.buf.window p n).length = n := s.buf.window_length p n
  constructor
  · have htake := congrArg (List.take n) hcells
    rwa [List.take_left' hfront, List.take_append_of_le_length hfit] at htake
  · have hdrop := congrArg (List.drop n) hcells
    rwa [List.drop_left' hfront, List.drop_append_of_le_length hfit] at hdrop

theorem Queued.effect {k t p : Nat} {q : List Byte} {s s' : Playback} {a : Action} {obs : List Obs}
    (h : Queued k t p q s) (ha : a.settles = true) (hforward : a.forward = true)
    (he : Effect s a obs s') :
    ∃ q', Queued k (obs.foldl tally t) (obs.foldl playOn p) q' s' ∧
      Fifo.Run q (obs.flatMap Obs.fifoOps) q' := by
  obtain ⟨p', hindexed, hp'⟩ := h.toIndexed.effect ha he
  rw [hp' (.inl h.onward)] at hindexed
  have hle := h.behind.trans (published_le t s.writer)
  cases he with
  | look freq rate hbuf hobs =>
      have hwindow := (Pulsebuf.window_synced hbuf p (t - p)).trans h.cells
      rcases hobs with rfl | ⟨e, rfl⟩
      · exact ⟨q, ⟨hindexed, h.onward, h.asks, hwindow⟩, .nil q⟩
      · exact ⟨q, ⟨hindexed, h.onward, h.asks, hwindow⟩, .nil q⟩
  | reserve data hfree _ _ _ =>
      have hcells := h.cells
      rw [hfree] at hcells
      exact ⟨q, ⟨hindexed, h.onward, h.asks, hcells⟩, .nil q⟩
  | copy data hwriter _ hc =>
      have hcells := h.cells
      rw [hwriter] at hcells
      have hroom : t + data.length ≤ p + 2 ^ k := hindexed.room
      obtain ⟨hkeep, hdata⟩ := Pulsebuf.window_store h.shares data h.written hc hle (by omega)
      have hold := (hkeep.trans hcells).trans (List.append_nil q)
      refine ⟨q, ⟨hindexed, h.onward, h.asks, ?_⟩, .nil q⟩
      have hlen : t + data.length - p = t - p + data.length := by omega
      change Pulsebuf.window _ p (t + data.length - p) = q ++ data
      rw [hlen, Pulsebuf.window_add, Nat.add_sub_cancel' hle]
      exact congrArg₂ (· ++ ·) hold hdata
  | rollback bs e hwriter hfit hc _ =>
      have hcells := h.cells
      rw [hwriter] at hcells
      obtain ⟨hwritten, hsmall⟩ := h.writing _ hwriter
      have havail := h.shares.avail_toNat hsmall
      obtain ⟨hkeep, -⟩ := Pulsebuf.window_store h.shares bs h.written hc hle (by omega)
      exact ⟨q, ⟨hindexed, h.onward, h.asks, hkeep.trans hcells⟩, .nil q⟩
  | publish data hwriter hc =>
      have hcells := h.cells
      rw [hwriter] at hcells
      have hmem := congrArg Player.mem (Pulsebuf.player_publishTail s.buf)
      rw [← hc] at hmem
      refine ⟨q ++ data, ⟨hindexed, h.onward, h.asks, ?_⟩, (Fifo.Step.push q data).run⟩
      have hkeep := s.buf.window_setEngine hmem p (t - p)
      exact (hkeep.trans hcells).trans (List.append_nil (q ++ data)).symm
  | unpublished hload _ =>
      subst hload
      cases ha
  | check o _ _ hcheck hcall =>
      refine ⟨q, ⟨hindexed, h.onward, ?_, h.cells⟩, .nil q⟩
      intro o' ho'
      cases ho'
      subst hcheck
      simpa [Action.forward, hcall] using hforward
  | giveUp e hbuf _ _ =>
      have hwindow := (Pulsebuf.window_synced hbuf p (t - p)).trans h.cells
      exact ⟨q, ⟨hindexed, h.onward, (fun _ ho => nomatch ho), hwindow⟩, .nil q⟩
  | abandon o e hbuf _ _ hc =>
      have hwindow := (Pulsebuf.window_synced hbuf p (t - p)).trans h.cells
      have hmem := Pulsebuf.mem_setRegs _ o hc
      have hkeep := Pulsebuf.window_setEngine _ hmem p (t - p)
      exact ⟨q, ⟨hindexed, h.onward, (fun _ ho => nomatch ho), hkeep.trans hwindow⟩, .nil q⟩
  | commit o hbuf hstarting _ _ _ hc =>
      have hwindow := (Pulsebuf.window_synced hbuf p (t - p)).trans h.cells
      have hmem := Pulsebuf.mem_setRegs _ o (.inl hc)
      have hkeep := Pulsebuf.window_setEngine _ hmem p (t - p)
      exact ⟨q, ⟨hindexed, h.asks o hstarting, (fun _ ho => nomatch ho), hkeep.trans hwindow⟩,
        .nil q⟩
  | @tick fuel es c _ hrun hexec =>
      obtain ⟨hread, hmem⟩ := h.reads hrun hexec
      obtain ⟨hfront, hrest⟩ := h.front hindexed.behind
      refine ⟨q.drop (Sdma.reads es).length, ⟨hindexed, h.onward, h.asks, ?_⟩, ?_⟩
      · exact (s.buf.window_setEngine hmem _ _).trans hrest
      · have hstep := (Fifo.Step.pop_take q (Sdma.reads es).length).run
        rw [← hfront, ← hread] at hstep
        exact hstep
  | stop => exact ⟨q, ⟨hindexed, rfl, h.asks, h.cells⟩, .nil q⟩
  | wipe data position _ hfree hc =>
      cases data with
      | false =>
          have hmem := congrArg Player.mem (player_clear s.buf.engine false position)
          rw [← hc, Player.clear_mem] at hmem
          have hkeep := s.buf.window_setEngine hmem p (t - p)
          exact ⟨q, ⟨hindexed, h.onward, h.asks, hkeep.trans h.cells⟩, .nil q⟩
      | true =>
          refine ⟨[], ⟨hindexed, h.onward, h.asks, ?_⟩, (Fifo.Step.reset q).run⟩
          rw [hfree]
          rfl
  | wipeFailed data e _ _ hload =>
      cases data with
      | false => exact ⟨q, ⟨hindexed, h.onward, h.asks, h.cells⟩, .nil q⟩
      | true =>
          obtain ⟨position, rfl⟩ := hload rfl
          cases ha

theorem Queued.run {guard : Playback → Action → Prop} {k t p : Nat} {q : List Byte} {s : Playback}
    {ops : List (Fifo.Op Byte)} (h : Queued k t p q s) (hops : Fifo.Run [] ops q)
    (hkeeps : ∀ t p q s a r, Queued k t p q s → guard s a → step s a = some r →
      ∃ t p q', Queued k t p q' r.2 ∧ Fifo.Run q (r.1.flatMap Obs.fifoOps) q')
    {as : List Action} {r : List Obs × Playback} (halong : System.Along step guard as s)
    (hexec : System.execute step as s = some r) :
    ∃ t p q, Queued k t p q r.2 ∧ Fifo.Run [] (ops ++ r.1.flatMap Obs.fifoOps) q := by
  have hstep : ∀ ops s a r, (∃ t p q, Queued k t p q s ∧ Fifo.Run [] ops q) → guard s a →
      step s a = some r →
      ∃ t p q, Queued k t p q r.2 ∧ Fifo.Run [] (ops ++ r.1.flatMap Obs.fifoOps) q := by
    rintro ops s a r ⟨t, p, q, hs, hops⟩ ha hr
    obtain ⟨t', p', q', hs', hrun⟩ := hkeeps t p q s a r hs ha hr
    exact ⟨t', p', q', hs', hops.append hrun⟩
  exact System.execute_collects hstep ⟨t, p, q, h, hops⟩ halong hexec

theorem queued_run {ringMb : Nat} {args : ScriptArgs} {as : List Action} {out : List Obs}
    {s : Playback} (h : System.execute step as (probe ringMb args) = some (out, s))
    (htransfers : ∀ a ∈ as, a.transfers = true) (hforward : ∀ a ∈ as, a.forward = true) :
    ∃ k t p q, Queued k t p q s ∧ Fifo.Run [] (out.flatMap Obs.fifoOps) q := by
  obtain ⟨k, hinit⟩ := queued_probe ringMb args
  have halong : System.Along step (fun _ a => a.transfers = true ∧ a.forward = true) as
      (probe ringMb args) :=
    System.along_of_forall (fun a ha => ⟨htransfers a ha, hforward a ha⟩) _
  refine ⟨k, hinit.run (.nil []) ?_ halong h⟩
  rintro t p q s a r hs ⟨ha, hf⟩ hr
  obtain ⟨q', hs', hrun⟩ := hs.effect (Action.settles_of_transfers ha) hf (step_effect hr)
  exact ⟨_, _, q', hs', hrun⟩

/-- The ring refines a queue of bytes, whose contents are the unplayed cells. -/
theorem pulse_ring_refines_fifo {ringMb : Nat} {args : ScriptArgs} {as : List Action}
    {out : List Obs} {s : Playback}
    (h : System.execute step as (probe ringMb args) = some (out, s))
    (htransfers : ∀ a ∈ as, a.transfers = true) (hforward : ∀ a ∈ as, a.forward = true) :
    (Fifo.ledger (out.flatMap Obs.fifoOps)).popped <+:
        (Fifo.ledger (out.flatMap Obs.fifoOps)).pushed ∧
      ∃ q, Fifo.Run [] (out.flatMap Obs.fifoOps) q ∧
        (List.range q.length).map (fun j : Nat => s.buf.player.cell (s.buf.player.head + j)) = q := by
  obtain ⟨k, t, p, q, hqueued, hfifo⟩ := queued_run h htransfers hforward
  refine ⟨hfifo.popped_prefix, q, hfifo, ?_⟩
  have hle := hqueued.behind.trans (published_le t s.writer)
  have hlen := congrArg List.length hqueued.cells
  rw [s.buf.window_length, List.length_append] at hlen
  have hbehind : p + q.length ≤ published t s.writer := by
    rw [published_eq]
    omega
  have hfront := (hqueued.front hbehind).1
  rw [List.take_length, Pulsebuf.window, ringWindow] at hfront
  rw [← hfront, List.length_map, List.length_range]
  apply List.map_congr_left
  intro j _
  rw [Player.cell, Player.cellAddress, hqueued.head, ← Nat.cast_add, hqueued.shares.mask,
    hqueued.shares.base]

/-- A job of three bytes is written, and two of them played. -/
private def shortJob : List Action :=
  [.writeBegin [0x80, 0, 0] true, .writeCopy .all, .writePublish true,
    .startCheck .run true true, .startCommit .granted, .tick 200, .tick 200]

theorem pulse_ring_refines_fifo_shortJob :
    ∃ out s, System.execute step shortJob (probe 1 (.over fun _ => 0)) = some (out, s) ∧
      (Fifo.ledger (out.flatMap Obs.fifoOps)).popped = [0x80, 0] ∧
      (Fifo.ledger (out.flatMap Obs.fifoOps)).popped <+:
        (Fifo.ledger (out.flatMap Obs.fifoOps)).pushed := by
  have h : (System.execute step shortJob (probe 1 (.over fun _ => 0))).map
      (fun r => (Fifo.ledger (r.1.flatMap Obs.fifoOps)).popped) = some [0x80, 0] := by
    decide +kernel
  obtain ⟨⟨out, s⟩, hexec, hpopped⟩ := Option.map_eq_some_iff.mp h
  exact ⟨out, s, hexec, hpopped, (pulse_ring_refines_fifo hexec (by decide) (by decide)).1⟩

end Playback

end Glowforge.Cnc
