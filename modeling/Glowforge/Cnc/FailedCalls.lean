import Glowforge.Cnc.PulseFifo
import Glowforge.Foundation.Ledger

/-! Writes and clears that fail. A copy is rolled back; the transfer that tells the script
comes after the host has counted what it tells, and nothing takes that back when the
transfer fails. -/
namespace Glowforge.Cnc
open Foundation Sdma

namespace Pulsebuf

/-- What a later write, and the start of a run, go by: the write index, the total, and the
tail that the script has. -/
def standing (b : Pulsebuf) : Word × BitVec 64 × Word :=
  (b.fifo.inIndex, b.totalBytes, b.player.tail)

structure Counters where
  inIndex : Word
  outIndex : Word
  totalBytes : BitVec 64
  head : Word
  tail : Word
  bytes : Word
  x : Word
  y : Word
  z : Word
  deriving DecidableEq

def counters (b : Pulsebuf) : Counters where
  inIndex := b.fifo.inIndex
  outIndex := b.fifo.outIndex
  totalBytes := b.totalBytes
  head := b.player.head
  tail := b.player.tail
  bytes := b.player.bytes
  x := b.player.x
  y := b.player.y
  z := b.player.z

/-- Nothing to forget: the host's indices and its total are zero. -/
def Blank (b : Pulsebuf) : Prop :=
  b.fifo.inIndex = 0 ∧ b.fifo.outIndex = 0 ∧ b.totalBytes = 0

instance (b : Pulsebuf) : Decidable b.Blank := inferInstanceAs (Decidable (_ ∧ _ ∧ _))

theorem forget_eq_self {b : Pulsebuf} {data : Bool} (h : data = true → b.Blank) :
    b.forget data = b := by
  cases data with
  | false => rfl
  | true =>
      obtain ⟨⟨inIndex, outIndex, mask⟩, phys, total, engine⟩ := b
      obtain ⟨rfl, rfl, rfl⟩ := h rfl
      rfl

theorem counters_forget (b : Pulsebuf) (data : Bool) :
    (b.forget data).counters = b.counters ↔ (data = true → b.Blank) := by
  constructor
  · rintro h rfl
    simp only [forget, if_true, counters, Kfifo.reset, Counters.mk.injEq] at h
    exact ⟨h.1.symm, h.2.1.symm, h.2.2.1.symm⟩
  · intro h
    rw [forget_eq_self h]

end Pulsebuf

def Action.writes : Action → Bool
  | .writeBegin _ _ => true
  | .writeCopy _ => true
  | .writePublish _ => true
  | _ => false

namespace Playback

/-- Failing, the step changes nothing: it publishes no byte, or clears what is blank. -/
def Harmless (s : Playback) : Action → Prop
  | .writePublish false => ∀ data, s.writer = some ⟨data, true⟩ → data = []
  | .clear true _ false => s.running = true ∨ s.buf.Blank
  | _ => True

def Tolerated (s : Playback) (a : Action) : Prop := a.forward = true ∧ s.Harmless a

theorem Queued.unpublished {k t p : Nat} {q : List Byte} {s : Playback} (h : Queued k t p q s)
    (hwriter : s.writer = some ⟨[], true⟩) : Queued k t p q { s with writer := none } := by
  have hpublished : published t s.writer = published t none := by
    rw [hwriter]
    rfl
  have hcells := h.cells
  rw [hwriter] at hcells
  have hcounted : Counted k t { s with writer := none } :=
    ⟨h.shares, h.written, h.total, h.asked, h.idle⟩
  refine ⟨⟨hcounted, h.head, h.behind.trans_eq hpublished, h.room, (fun _ hw => nomatch hw), ?_, ?_⟩,
    h.onward, h.asks, hcells⟩
  · intro hrun hback
    exact ⟨(h.forward hrun hback).tail.trans (congrArg _ hpublished), (h.forward hrun hback).dir⟩
  · intro hrun hback
    exact absurd hwriter (by simp [(h.backward hrun hback).free])

theorem Queued.tolerated {k t p : Nat} {q : List Byte} {s : Playback} {a : Action}
    {r : List Obs × Playback} (h : Queued k t p q s) (ha : s.Tolerated a)
    (hstep : step s a = some r) :
    ∃ t p q', Queued k t p q' r.2 ∧ Fifo.Run q (r.1.flatMap Obs.fifoOps) q' := by
  obtain ⟨hforward, hharmless⟩ := ha
  by_cases hsettles : a.settles = true
  · obtain ⟨q', hs', hrun⟩ := h.effect hsettles hforward (step_effect hstep)
    exact ⟨_, _, q', hs', hrun⟩
  · cases a with
    | writePublish load =>
        obtain rfl : load = false := Bool.eq_false_of_not_eq_true hsettles
        simp only [step] at hstep
        split at hstep
        · rename_i data hwriter
          obtain rfl := hharmless data hwriter
          obtain rfl := Option.some.inj hstep
          exact ⟨t, p, q, h.unpublished hwriter, .nil q⟩
        · cases hstep
    | clear data position load =>
        simp only [Action.settles, Bool.or_eq_true, Bool.not_eq_true', not_or,
          Bool.not_eq_true, Bool.not_eq_false] at hsettles
        obtain ⟨rfl, rfl⟩ := hsettles
        obtain ⟨-, hr⟩ := Option.ite_none_right_eq_some.mp hstep
        by_cases hrun : s.running = true
        · rw [if_pos hrun] at hr
          obtain rfl := Option.some.inj hr
          exact ⟨t, p, q, h, .nil q⟩
        · rw [if_neg hrun] at hr
          obtain rfl := Option.some.inj hr
          have hforget : s.buf.forget true = s.buf :=
            Pulsebuf.forget_eq_self fun _ => hharmless.resolve_left hrun
          have hclear : s.clear true position false = ([.emptied, .failed .ESDMA], s) := by
            simp [clear, Pulsebuf.clear, hforget]
          rw [hclear]
          exact ⟨t, p, q, h, .nil q⟩
    | _ => exact absurd rfl hsettles

theorem played_of_tolerated {ringMb : Nat} {args : ScriptArgs} {as bs : List Action}
    {a : Action} {out : List Obs} {s : Playback} {r q : List Obs × Playback}
    (hexec : System.execute step as (probe ringMb args) = some (out, s))
    (has : System.Along step Tolerated as (probe ringMb args)) (hstep : s.step a = some r)
    (ha : s.Tolerated a) (hrest : System.execute step bs r.2 = some q)
    (hbs : System.Along step Tolerated bs r.2) :
    (Fifo.ledger ((out ++ r.1 ++ q.1).flatMap Obs.fifoOps)).popped <+:
      (Fifo.ledger ((out ++ r.1 ++ q.1).flatMap Obs.fifoOps)).pushed := by
  obtain ⟨k, hinit⟩ := queued_probe ringMb args
  obtain ⟨t, p, xs, hs, hops⟩ := hinit.run (.nil []) (fun _ _ _ _ _ _ => Queued.tolerated) has hexec
  obtain ⟨t', p', xs', hs', hrun⟩ := hs.tolerated ha hstep
  obtain ⟨_, _, _, _, hall⟩ :=
    hs'.run (hops.append hrun) (fun _ _ _ _ _ _ => Queued.tolerated) hbs hrest
  rw [List.flatMap_append, List.flatMap_append]
  exact hall.popped_prefix

/-- A clear that fails has forgotten what the host counts, and told the script nothing. -/
theorem clear_failed {s : Playback} {data position load : Bool}
    (hfailed : ∃ e, .failed e ∈ (s.clear data position load).1) :
    (s.clear data position load).2 = { s with buf := s.buf.forget data } := by
  obtain ⟨e, he⟩ := hfailed
  unfold clear Pulsebuf.clear at *
  cases data <;> cases position <;> cases load <;> simp_all [Pulsebuf.forget]

/-- In every run: a clear that fails leaves the indices, the total and the script's counters,
and with them a ring from which only what was written is played, exactly when it was not to
clear the data, or there was nothing to forget. -/
theorem failed_clear_changes_nothing_iff {ringMb : Nat} {args : ScriptArgs} {as : List Action}
    {out : List Obs} {s : Playback} {data position load : Bool} {r : List Obs × Playback}
    (hexec : System.execute step as (probe ringMb args) = some (out, s))
    (hidle : s.running = false) (hstep : s.step (.clear data position load) = some r)
    (hfailed : ∃ e, .failed e ∈ r.1) :
    (r.2.buf.counters = s.buf.counters ∧
      (System.Along step Tolerated as (probe ringMb args) → ∀ bs q,
        System.execute step bs r.2 = some q → System.Along step Tolerated bs r.2 →
          (Fifo.ledger ((out ++ r.1 ++ q.1).flatMap Obs.fifoOps)).popped <+:
            (Fifo.ledger ((out ++ r.1 ++ q.1).flatMap Obs.fifoOps)).pushed)) ↔
      (data = true → s.buf.Blank) := by
  obtain ⟨-, hr⟩ := Option.ite_none_right_eq_some.mp hstep
  rw [if_neg (by simp [hidle])] at hr
  obtain rfl := Option.some.inj hr
  have hforgot := clear_failed hfailed
  constructor
  · rintro ⟨hcounters, -⟩
    rw [hforgot] at hcounters
    exact (s.buf.counters_forget data).mp hcounters
  · intro hblank
    constructor
    · rw [hforgot]
      exact (s.buf.counters_forget data).mpr hblank
    · intro has bs q hrest hbs
      have htolerated : s.Tolerated (.clear data position load) := by
        refine ⟨rfl, ?_⟩
        cases data with
        | false => trivial
        | true =>
            cases load with
            | false => exact .inr (hblank rfl)
            | true => trivial
      exact played_of_tolerated hexec has hstep htolerated hrest hbs

private def oneByte : List Action :=
  [.writeBegin [3] true, .writeCopy .all, .writePublish true]

/-- A clear of the position that fails; the byte stays to be played. -/
theorem failed_clear_changes_nothing_position :
    ∃ out s r, System.execute step oneByte (probe 1 (.over fun _ => 0)) = some (out, s) ∧
      s.step (.clear false true false) = some r ∧ .failed .ESDMA ∈ r.1 ∧
      ((r.2.buf.counters = s.buf.counters ∧
        (System.Along step Tolerated oneByte (probe 1 (.over fun _ => 0)) → ∀ bs q,
          System.execute step bs r.2 = some q → System.Along step Tolerated bs r.2 →
            (Fifo.ledger ((out ++ r.1 ++ q.1).flatMap Obs.fifoOps)).popped <+:
              (Fifo.ledger ((out ++ r.1 ++ q.1).flatMap Obs.fifoOps)).pushed)) ↔
        (false = true → s.buf.Blank)) := by
  have hrun : (System.execute step oneByte (probe 1 (.over fun _ => 0))).map
      (fun r => (r.2.running, r.2.writer)) = some (false, none) := by
    decide +kernel
  obtain ⟨⟨out, s⟩, hexec, hstate⟩ := Option.map_eq_some_iff.mp hrun
  obtain ⟨hidle, hfree⟩ := Prod.mk.inj hstate
  have hstep : s.step (.clear false true false) = some (s.clear false true false) := by
    simp only [step]
    rw [if_pos hfree, if_neg (by simp [show s.running = false from hidle])]
  have hfailed : .failed .ESDMA ∈ (s.clear false true false).1 := by
    simp [clear, Pulsebuf.clear]
  exact ⟨out, s, _, hexec, hstep, hfailed,
    failed_clear_changes_nothing_iff hexec hidle hstep ⟨_, hfailed⟩⟩

/-- The host forgets the byte, the script does not. -/
theorem failed_clear_changes_nothing_false :
    ¬∀ (ringMb : Nat) (args : ScriptArgs) (as : List Action) (out : List Obs) (s : Playback)
      (data position load : Bool) (r : List Obs × Playback),
      System.execute step as (probe ringMb args) = some (out, s) → s.running = false →
      s.step (.clear data position load) = some r → (∃ e, .failed e ∈ r.1) →
      r.2.buf.counters = s.buf.counters := by
  intro h
  have hrun : (System.execute step oneByte (probe 1 (.over fun _ => 0))).map
      (fun r => (r.2.running, r.2.writer, r.2.buf.fifo.inIndex)) = some (false, none, 1) := by
    decide +kernel
  obtain ⟨⟨out, s⟩, hexec, hstate⟩ := Option.map_eq_some_iff.mp hrun
  simp only [Prod.mk.injEq] at hstate
  obtain ⟨hidle, hfree, hin⟩ := hstate
  have hstep : s.step (.clear true false false) = some (s.clear true false false) := by
    simp only [step]
    rw [if_pos hfree, if_neg (by simp [hidle])]
  have hfailed : ∃ e, .failed e ∈ (s.clear true false false).1 :=
    ⟨.ESDMA, by simp [clear, Pulsebuf.clear]⟩
  have hkept := h 1 _ oneByte out s true false false _ hexec hidle hstep hfailed
  rw [clear_failed hfailed] at hkept
  obtain ⟨hzero, -⟩ := (s.buf.counters_forget true).mp hkept rfl
  rw [hin] at hzero
  cases hzero

/-! The write that is under way, against what stood when it began. -/

/-- What stood when last no write was under way. -/
def enterCall (l : Word × BitVec 64 × Word) (s : Playback) : Word × BitVec 64 × Word :=
  if s.writer = none then s.buf.standing else l

/-- The counts of a write that has copied its bytes, and not told the script. -/
def advanced (l : Word × BitVec 64 × Word) (n : Nat) : Word × BitVec 64 × Word :=
  (l.1 + BitVec.ofNat 32 n, l.2.1 + BitVec.ofNat 64 n, l.2.2)

theorem advanced_zero (l : Word × BitVec 64 × Word) : advanced l 0 = l := by
  simp [advanced]

theorem advanced_eq_self {l : Word × BitVec 64 × Word} {n : Nat} (hn : n < 2 ^ 32) :
    advanced l n = l ↔ n = 0 := by
  constructor
  · intro h
    have hin : l.1 + BitVec.ofNat 32 n = l.1 := congrArg Prod.fst h
    have hzero : BitVec.ofNat 32 n = 0 := by simpa using hin
    have hmod := congrArg BitVec.toNat hzero
    rw [BitVec.toNat_ofNat, Nat.mod_eq_of_lt hn] at hmod
    exact hmod
  · rintro rfl
    exact advanced_zero l

/-- A write under way stands where it began, and its bytes further once they are copied. -/
def Held (l : Word × BitVec 64 × Word) (s : Playback) : Prop :=
  ∀ w, s.writer = some w →
    w.data.length < 2 ^ 32 ∧ s.buf.standing = advanced l (inFlight s.writer).length

theorem held_of_free {l : Word × BitVec 64 × Word} {s : Playback} (h : s.writer = none) :
    Held l s := by
  intro w hw
  rw [h] at hw
  cases hw

theorem Held.keep {l : Word × BitVec 64 × Word} {s s' : Playback} (h : Held l s)
    (hwriter : s'.writer = s.writer) (hstanding : s'.buf.standing = s.buf.standing) :
    Held l s' := by
  intro w hw
  rw [hwriter] at hw
  rw [hwriter, hstanding]
  exact h w hw

theorem standing_synced {b b' : Pulsebuf} (hb : b' = b ∨ b' = b.synced) :
    b'.standing = b.standing := by
  rcases hb with rfl | rfl <;> rfl

theorem Held.effect {k t : Nat} {l : Word × BitVec 64 × Word} {s s' : Playback} {a : Action}
    {obs : List Obs} (h : Held l s) (hcounted : Counted k t s) (he : Effect s a obs s') :
    Held (enterCall l s) s' := by
  by_cases hfree : s.writer = none
  · rw [enterCall, if_pos hfree]
    cases he with
    | reserve data _ hlen _ _ =>
        intro w hw
        obtain rfl := Option.some.inj hw
        exact ⟨hlen, (advanced_zero _).symm⟩
    | copy data hwriter _ _ => exact absurd hfree (by simp [hwriter])
    | rollback bs e _ _ _ _ => exact held_of_free rfl
    | publish data _ _ => exact held_of_free rfl
    | unpublished _ _ => exact held_of_free rfl
    | _ => exact held_of_free hfree
  · rw [enterCall, if_neg hfree]
    cases he with
    | look freq rate hbuf _ => exact h.keep rfl (standing_synced hbuf)
    | reserve data hnone _ _ _ => exact absurd hnone hfree
    | @copy c data hwriter hfit hc =>
        intro w hw
        obtain ⟨hlen, hstanding⟩ := h _ hwriter
        obtain rfl := Option.some.inj hw
        refine ⟨hlen, ?_⟩
        rw [hwriter] at hstanding
        simp only [inFlight, List.length_nil, advanced_zero] at hstanding
        have htail : c.m.player.tail = s.buf.player.tail := by
          rw [hc, Pulsebuf.player_store]
        rw [← hstanding]
        exact Prod.ext rfl (Prod.ext rfl htail)
    | rollback bs e _ _ _ _ => exact held_of_free rfl
    | publish data _ _ => exact held_of_free rfl
    | unpublished _ _ => exact held_of_free rfl
    | check o _ _ _ _ => exact h.keep rfl rfl
    | giveUp e _ _ hnone => exact absurd hnone hfree
    | abandon o e _ _ hnone _ => exact absurd hnone hfree
    | commit o _ _ hnone _ _ _ => exact absurd hnone hfree
    | @tick fuel es c _ _ hexec =>
        obtain ⟨ph, hw⟩ := hcounted.shares.waits
        obtain ⟨n, ph', htick, -⟩ := tick_of_exec hw hexec
        have htail : c.m.player.tail = s.buf.player.tail := congrArg Player.Setup.tail htick.setup
        exact h.keep rfl (Prod.ext rfl (Prod.ext rfl htail))
    | stop => exact h.keep rfl rfl
    | wipe data position _ hnone _ => exact absurd hnone hfree
    | wipeFailed data e _ hnone _ => exact absurd hnone hfree

abbrev Calling := Logged Playback (Word × BitVec 64 × Word)

namespace Calling

abbrev step : Calling → Action → Option (List Obs × Calling) :=
  Logged.step Playback.step fun l s _ _ => enterCall l s

def probe (ringMb : Nat) (args : ScriptArgs) : Calling :=
  ⟨Playback.probe ringMb args, (Playback.probe ringMb args).buf.standing⟩

theorem held_run {ringMb : Nat} {args : ScriptArgs} {as : List Action} {out : List Obs}
    {L : Calling} (h : System.execute step as (probe ringMb args) = some (out, L)) :
    Held L.ledger L.state := by
  obtain ⟨k, hinit⟩ := counted_probe ringMb args
  have hinv := System.execute_invariant
    (I := fun L : Calling => (∃ t, Counted k t L.state) ∧ Held L.ledger L.state) ?_
    ⟨⟨0, hinit⟩, held_of_free rfl⟩ h
  · exact hinv.2
  · rintro L a r ⟨⟨t, hcounted⟩, hheld⟩ hstep
    obtain ⟨s, hs, hr⟩ := Logged.step_state hstep
    rw [hr]
    exact ⟨⟨_, hcounted.effect (step_effect hs)⟩, hheld.effect hcounted (step_effect hs)⟩

end Calling

theorem writeBegin_standing (s : Playback) (data : List Byte) (fetch : Bool) :
    (s.writeBegin data fetch).2.buf.standing = s.buf.standing := by
  unfold writeBegin Pulsebuf.addUserDataBegin Pulsebuf.syncHead
  by_cases hback : (s.running && s.runningBackward) = true
  · rw [if_pos hback]
  · rw [if_neg hback]
    cases fetch with
    | false => rfl
    | true =>
        by_cases hroom : s.buf.synced.fifo.avail < BitVec.ofNat 32 data.length + cncBufferGapSize
        · simp only [if_true, if_pos hroom]
          rfl
        · simp only [if_true, if_neg hroom]
          rfl

theorem writeCopy_standing {s : Playback} {data : List Byte} {outcome : CopyOutcome}
    (hwriter : s.writer = some ⟨data, false⟩) (hfits : s.CopyFits data outcome)
    (hfailed : ∃ e, .failed e ∈ (s.writeCopy data outcome).1) :
    (s.writeCopy data outcome).2.buf.standing = s.buf.standing := by
  obtain ⟨e, he⟩ := hfailed
  have heffect := writeCopy_effect hwriter hfits
  generalize s.writeCopy data outcome = r at he heffect
  obtain ⟨obs, s'⟩ := r
  cases heffect with
  | look freq rate hbuf _ => exact standing_synced hbuf
  | @rollback data c bs e' _ _ hc _ =>
      have htail : c.m.player.tail = s.buf.player.tail := by
        rw [hc, Pulsebuf.player_store]
      exact Prod.ext rfl (Prod.ext rfl htail)
  | giveUp e' _ _ hfree => exact absurd hfree (by simp [hwriter])
  | abandon o e' _ _ hfree _ => exact absurd hfree (by simp [hwriter])
  | wipe data position _ hfree _ => exact absurd hfree (by simp [hwriter])
  | wipeFailed data e' _ hfree _ => exact absurd hfree (by simp [hwriter])
  | unpublished ha _ => cases ha
  | _ => simp at he

theorem write_standing {l : Word × BitVec 64 × Word} {s : Playback} {a : Action}
    {r : List Obs × Playback} (h : Held l s) (ha : a.writes = true) (hstep : s.step a = some r)
    (hfailed : ∃ e, .failed e ∈ r.1) :
    r.2.buf.standing = enterCall l s ↔
      (a = .writePublish false → s.writer = some ⟨[], true⟩) := by
  cases a with
  | writeBegin data fetch =>
      obtain ⟨⟨hfree, -⟩, hr⟩ := Option.ite_none_right_eq_some.mp hstep
      obtain rfl := Option.some.inj hr
      rw [enterCall, if_pos hfree]
      exact iff_of_true (s.writeBegin_standing data fetch) (by rintro ⟨⟩)
  | writeCopy outcome =>
      simp only [step] at hstep
      split at hstep
      · rename_i data hwriter
        obtain ⟨hfits, hr⟩ := Option.ite_none_right_eq_some.mp hstep
        obtain rfl := Option.some.inj hr
        obtain ⟨-, hstanding⟩ := h _ hwriter
        rw [hwriter] at hstanding
        simp only [inFlight, List.length_nil, advanced_zero] at hstanding
        rw [enterCall, if_neg (by simp [hwriter]), writeCopy_standing hwriter hfits hfailed]
        exact iff_of_true hstanding (by rintro ⟨⟩)
      · cases hstep
  | writePublish load =>
      simp only [step] at hstep
      split at hstep
      · rename_i data hwriter
        obtain rfl := Option.some.inj hstep
        obtain ⟨hlen, hstanding⟩ := h _ hwriter
        rw [hwriter] at hstanding
        simp only [inFlight] at hstanding
        cases load with
        | true =>
            obtain ⟨e, he⟩ := hfailed
            simp [writePublish, Pulsebuf.addUserDataPublish] at he
        | false =>
            rw [enterCall, if_neg (by simp [hwriter]), hwriter]
            have hkept : (s.writePublish data false).2.buf.standing = s.buf.standing := rfl
            rw [hkept, hstanding, advanced_eq_self hlen]
            simp
      · cases hstep
  | _ => cases ha

theorem harmless_of_told {s : Playback} {a : Action} (ha : a.writes = true)
    (h : a = .writePublish false → s.writer = some ⟨[], true⟩) : s.Tolerated a := by
  cases a with
  | writeBegin data fetch => exact ⟨rfl, trivial⟩
  | writeCopy outcome => exact ⟨rfl, trivial⟩
  | writePublish load =>
      refine ⟨rfl, ?_⟩
      cases load with
      | true => trivial
      | false =>
          intro data hwriter
          rw [h rfl] at hwriter
          simpa using hwriter.symm
  | _ => cases ha

/-- In every run: a write that fails leaves the write index, the total and the script's tail
as the call found them, and with them a ring from which a write is played once, exactly when
it did not fail to tell the script of bytes. -/
theorem failed_write_changes_nothing_iff {ringMb : Nat} {args : ScriptArgs} {as : List Action}
    {out : List Obs} {L : Calling} {a : Action} {r : List Obs × Calling}
    (hexec : System.execute Calling.step as (Calling.probe ringMb args) = some (out, L))
    (ha : a.writes = true) (hstep : Calling.step L a = some r) (hfailed : ∃ e, .failed e ∈ r.1) :
    (r.2.state.buf.standing = r.2.ledger ∧
      (System.Along step Tolerated as (probe ringMb args) → ∀ bs q,
        System.execute step bs r.2.state = some q → System.Along step Tolerated bs r.2.state →
          (Fifo.ledger ((out ++ r.1 ++ q.1).flatMap Obs.fifoOps)).popped <+:
            (Fifo.ledger ((out ++ r.1 ++ q.1).flatMap Obs.fifoOps)).pushed)) ↔
      (a = .writePublish false → L.state.writer = some ⟨[], true⟩) := by
  obtain ⟨s, hs, hr⟩ := Logged.step_state hstep
  have hstanding := write_standing (Calling.held_run hexec) ha hs hfailed
  rw [hr]
  constructor
  · rintro ⟨hkept, -⟩
    exact hstanding.mp hkept
  · intro htold
    refine ⟨hstanding.mpr htold, ?_⟩
    intro has bs q hrest hbs
    exact played_of_tolerated (r := (r.1, s)) (Logged.execute_state hexec) has hs
      (harmless_of_told ha htold) hrest hbs

/-- The copy of the second of two writes faults. -/
theorem failed_write_changes_nothing_fault :
    ∃ out L r, System.execute Calling.step (oneByte ++ [.writeBegin [5, 6] true])
        (Calling.probe 1 (.over fun _ => 0)) = some (out, L) ∧
      Calling.step L (.writeCopy (.fault 1 [])) = some r ∧ (∃ e, .failed e ∈ r.1) ∧
      ((r.2.state.buf.standing = r.2.ledger ∧
        (System.Along step Tolerated (oneByte ++ [.writeBegin [5, 6] true])
            (probe 1 (.over fun _ => 0)) → ∀ bs q,
          System.execute step bs r.2.state = some q → System.Along step Tolerated bs r.2.state →
            (Fifo.ledger ((out ++ r.1 ++ q.1).flatMap Obs.fifoOps)).popped <+:
              (Fifo.ledger ((out ++ r.1 ++ q.1).flatMap Obs.fifoOps)).pushed)) ↔
        (Action.writeCopy (.fault 1 []) = .writePublish false →
          L.state.writer = some ⟨[], true⟩)) := by
  have hrun : (System.execute Calling.step (oneByte ++ [.writeBegin [5, 6] true])
      (Calling.probe 1 (.over fun _ => 0))).bind (fun r =>
        (Calling.step r.2 (.writeCopy (.fault 1 []))).map fun q => q.1) =
      some [.failed .EFAULT] := by
    decide +kernel
  obtain ⟨⟨out, L⟩, hexec, hlast⟩ := Option.bind_eq_some_iff.mp hrun
  obtain ⟨r, hstep, hobs⟩ := Option.map_eq_some_iff.mp hlast
  have hfailed : ∃ e, .failed e ∈ r.1 := ⟨.EFAULT, by rw [hobs]; exact List.mem_singleton_self _⟩
  exact ⟨out, L, r, hexec, hstep, hfailed,
    failed_write_changes_nothing_iff hexec rfl hstep hfailed⟩

/-- The host counts the byte that the script is not told of. -/
theorem failed_write_changes_nothing_false :
    ¬∀ (ringMb : Nat) (args : ScriptArgs) (as : List Action) (out : List Obs) (L : Calling)
      (a : Action) (r : List Obs × Calling),
      System.execute Calling.step as (Calling.probe ringMb args) = some (out, L) →
      a.writes = true → Calling.step L a = some r → (∃ e, .failed e ∈ r.1) →
      r.2.state.buf.standing = r.2.ledger := by
  intro h
  have hrun : (System.execute Calling.step [.writeBegin [3] true, .writeCopy .all]
      (Calling.probe 1 (.over fun _ => 0))).bind (fun r =>
        (Calling.step r.2 (.writePublish false)).map fun q =>
          (q.1, q.2.state.buf.fifo.inIndex, q.2.ledger.1)) =
      some ([.failed .ESDMA], 1, 0) := by
    decide +kernel
  obtain ⟨⟨out, L⟩, hexec, hlast⟩ := Option.bind_eq_some_iff.mp hrun
  obtain ⟨r, hstep, hseen⟩ := Option.map_eq_some_iff.mp hlast
  simp only [Prod.mk.injEq] at hseen
  obtain ⟨hobs, hin, hledger⟩ := hseen
  have hfailed : ∃ e, .failed e ∈ r.1 := ⟨.ESDMA, by rw [hobs]; exact List.mem_singleton_self _⟩
  have hkept : r.2.state.buf.fifo.inIndex = r.2.ledger.1 :=
    congrArg Prod.fst (h 1 _ _ out L _ r hexec rfl hstep hfailed)
  rw [hin, hledger] at hkept
  cases hkept

end Playback

end Glowforge.Cnc
