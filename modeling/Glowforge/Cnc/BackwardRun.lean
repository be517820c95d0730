import Glowforge.Cnc.Counted

/-! Which bytes a backward run reads. The engine reads the cell under its head before it
steps the head back, so the run begins with the byte it would have played next. -/
namespace Glowforge.Cnc
open Foundation Sdma

def readAddresses : Obs → List Word
  | .played es => (reads es).map Prod.fst
  | _ => []

namespace Playback

def unplayed (s : Playback) : Word := s.buf.fifo.inIndex - s.buf.player.head

/-- The stream index of the next byte to play, `t` bytes after the last reset. -/
def playPosition (s : Playback) (t : Nat) : Int := t - s.unplayed.toNat

/-- A byte a backward run may play: played before, taken since the last reset, and
still in the ring. -/
def Legal (s : Playback) (t : Nat) (i : Int) : Prop :=
  i < s.playPosition t ∧ (0 ≤ i ∧ i < t) ∧ t - (s.buf.fifo.size.toNat : Int) ≤ i

def walkBack (i : Int) (n : Nat) : List Int := (List.range n).map fun j : Nat => i - j

def Fetches (s : Playback) : Action → Prop
  | .tick _ => s.running = true ∧ midRun s.buf.engine = true ∧ ¬s.buf.player.idle
  | _ => False

/-- A backward run from head `h` towards the dead stop `d`, after `n` bytes. -/
structure Receding (k : Nat) (cell : Word → Word) (h d : Word) (n : Nat) (s : Playback) : Prop where
  shares : s.buf.Shares k
  cells : s.buf.address = cell
  within : n ≤ (h - d).toNat
  backward : s.running = true → s.runningBackward = true
  free : s.running = true → s.writer = none ∧ s.starting = none
  tail : s.running = true → s.buf.player.tail = d
  head : s.running = true → s.buf.player.head = h - n
  dir : s.running = true → s.buf.player.dir = -1 ∨ s.buf.player.dir = 0

theorem cellAddress_eq {k : Nat} {b : Pulsebuf} (h : b.Shares k) :
    b.player.cellAddress = b.address := by
  funext i
  rw [Player.cellAddress, h.mask, h.base]
  rfl

theorem Receding.tick {k n fuel : Nat} {cell : Word → Word} {h d : Word} {s : Playback}
    {es : List Event} {c : Config Label} (hs : Receding k cell h d n s) (hrun : s.running = true)
    (hexec : Engine.exec script.step fuel s.buf.engine = some (es, c)) :
    ∃ m, Receding k cell h d (n + m) { s with buf := { s.buf with engine := c } } ∧
      (reads es).map Prod.fst = (List.range m).map fun j : Nat => cell (h - n - j) := by
  obtain ⟨ph, hw⟩ := hs.shares.waits
  obtain ⟨m, ph', htick, -⟩ := tick_of_exec hw hexec
  have hwalk := htick.walked
  have hhead := hs.head hrun
  have hdir := hs.dir hrun
  -- while it moves at all, the head moves one index back a byte
  have hback : ∀ j : Nat, m ≠ 0 → s.buf.player.head + j • s.buf.player.dir = h - n - j := by
    intro j hm
    have hminus : s.buf.player.dir = -1 := hdir.resolve_right (hwalk.moving hm)
    rw [hhead, hminus, neg_nsmul, nsmul_one, sub_eq_add_neg (h - n)]
  refine ⟨m, ⟨hs.shares.tick hexec, hs.cells, ?_, hs.backward, hs.free, ?_, ?_, ?_⟩, ?_⟩
  · by_contra hfar
    have hwithin := hs.within
    have hlt : (h - d).toNat - n < m := by omega
    have hmeet : h - n - (((h - d).toNat - n : Nat) : Word) = d := by
      rw [Nat.cast_sub hs.within, natCast_toNat]
      abel
    have hroom := hwalk.room _ hlt
    apply hroom
    have hstop := hback ((h - d).toNat - n) (by omega)
    rw [hmeet] at hstop
    have htail := hs.tail hrun
    exact congrArg (· &&& s.buf.player.mask) (hstop.trans htail.symm)
  · intro _
    have htail : c.m.player.tail = s.buf.player.tail := congrArg Player.Setup.tail htick.setup
    exact htail.trans (hs.tail hrun)
  · intro _
    have hend : c.m.player.head = s.buf.player.head + m • s.buf.player.dir := hwalk.head
    change c.m.player.head = _
    rw [hend]
    by_cases hm : m = 0
    · subst hm
      rw [zero_nsmul, add_zero, hhead, add_zero]
    · rw [hback m hm]
      push_cast
      abel
  · intro _
    have hend : c.m.player.dir = s.buf.player.dir ∨ c.m.player.dir = 0 := hwalk.dir
    rcases hend with hkeep | hzero
    · exact hdir.imp hkeep.trans hkeep.trans
    · exact .inr hzero
  · have hread : reads es = s.buf.player.cells m := hwalk.reads
    rw [hread, Player.cells, List.map_map]
    apply List.map_congr_left
    intro j hj
    have hm : m ≠ 0 := Nat.ne_of_gt (Nat.zero_lt_of_lt (List.mem_range.mp hj))
    rw [Function.comp_apply, hback j hm, cellAddress_eq hs.shares, hs.cells]

theorem Receding.stopped {k n : Nat} {cell : Word → Word} {h d : Word} {s : Playback}
    (hshares : s.buf.Shares k) (hcells : s.buf.address = cell) (hwithin : n ≤ (h - d).toNat)
    (hrun : s.running = false) : Receding k cell h d n s := by
  have hidle : ¬s.running = true := by simp [hrun]
  exact ⟨hshares, hcells, hwithin, fun hr => absurd hr hidle, fun hr => absurd hr hidle,
    fun hr => absurd hr hidle, fun hr => absurd hr hidle, fun hr => absurd hr hidle⟩

/-- Nothing else that happens before the next start makes the script read, or turns it
round: the ring is closed to writers while it runs. -/
theorem Receding.effect {k n : Nat} {cell : Word → Word} {h d : Word} {s s' : Playback}
    {a : Action} {obs : List Obs} (hs : Receding k cell h d n s) (he : Effect s a obs s')
    (honly : ∀ e ∈ obs, ∀ b, e ≠ .started b) :
    ∃ m, Receding k cell h d (n + m) s' ∧
      obs.flatMap readAddresses = (List.range m).map fun j : Nat => cell (h - n - j) := by
  have hnowriter : ∀ {w : Writer}, s.writer = some w → s.running = false := by
    intro w hw
    by_contra hrun
    have hnone := (hs.free (eq_true_of_ne_false hrun)).1
    rw [hw] at hnone
    cases hnone
  have hnostart : ∀ {o : CncRunOptions}, s.starting = some o → s.running = false := by
    intro o ho
    by_contra hrun
    have hnone := (hs.free (eq_true_of_ne_false hrun)).2
    rw [ho] at hnone
    cases hnone
  cases he with
  | look freq rate hbuf hobs =>
      refine ⟨0, ?_, ?_⟩
      · have hshares := hs.shares.synced hbuf
        rcases hbuf with rfl | rfl
        · exact ⟨hshares, hs.cells, hs.within, hs.backward, hs.free, hs.tail, hs.head, hs.dir⟩
        · exact ⟨hshares, hs.cells, hs.within, hs.backward, hs.free, hs.tail, hs.head, hs.dir⟩
      · rcases hobs with rfl | ⟨e, rfl⟩ <;> rfl
  | reserve data _ _ hahead _ =>
      have hrun : s.running = false := by
        by_contra hrun
        have htrue : s.running = true := eq_true_of_ne_false hrun
        simp [htrue, hs.backward htrue] at hahead
      exact ⟨0, .stopped (hs.shares.synced (.inr rfl)) hs.cells hs.within hrun, rfl⟩
  | copy data hwriter _ hc =>
      have hshares := hs.shares.store data
      subst hc
      refine ⟨0, .stopped ?_ hs.cells hs.within (hnowriter hwriter), rfl⟩
      exact ⟨hshares.order, hshares.ring, hshares.mask, hshares.base, hshares.waits⟩
  | rollback bs e hwriter _ hc _ =>
      subst hc
      exact ⟨0, .stopped (hs.shares.store bs) hs.cells hs.within (hnowriter hwriter), rfl⟩
  | publish data hwriter hc =>
      subst hc
      exact ⟨0, .stopped hs.shares.publishTail hs.cells hs.within (hnowriter hwriter), rfl⟩
  | unpublished _ hwriter =>
      exact ⟨0, .stopped hs.shares hs.cells hs.within (hnowriter hwriter), rfl⟩
  | check o hidle _ _ _ =>
      exact ⟨0, .stopped (hs.shares.synced (.inr rfl)) hs.cells hs.within hidle, rfl⟩
  | giveUp e hbuf hstarting _ =>
      refine ⟨0, .stopped (hs.shares.synced hbuf) ?_ hs.within (hnostart hstarting), rfl⟩
      rcases hbuf with rfl | rfl <;> exact hs.cells
  | abandon o e hbuf hstarting _ hc =>
      refine ⟨0, .stopped ((hs.shares.synced hbuf).setRegs o hc) ?_ hs.within
        (hnostart hstarting), rfl⟩
      rcases hbuf with rfl | rfl <;> exact hs.cells
  | commit o _ _ _ _ _ _ => exact absurd rfl (honly _ (List.mem_singleton.mpr rfl) o.backward)
  | tick _ hrun hexec =>
      obtain ⟨m, hnext, hread⟩ := hs.tick hrun hexec
      refine ⟨m, hnext, ?_⟩
      rw [← hread, List.flatMap_singleton]
      rfl
  | stop => exact ⟨0, .stopped hs.shares hs.cells hs.within rfl, rfl⟩
  | wipe data position hidle _ hc =>
      have hshares := (hs.shares.clear data position).forget data
      subst hc
      refine ⟨0, ?_, ?_⟩
      · cases data <;> exact .stopped hshares hs.cells hs.within hidle
      · cases data <;> rfl
  | wipeFailed data e hidle _ _ =>
      have hshares := hs.shares.forget data
      refine ⟨0, ?_, ?_⟩
      · cases data <;> exact .stopped hshares hs.cells hs.within hidle
      · cases data <;> rfl

theorem receding_of_commit {k t : Nat} {s s₁ : Playback} {w : StartOutcome} (h : Counted k t s)
    (hstart : s.step (.startCommit w) = some ([.started true], s₁)) :
    Receding k s.buf.address s.buf.player.head s.buf.backtrackDeadStop 0 s₁ ∧
      s.unplayed.toNat < s.buf.totalBytes.toNat ∧
      (s.unplayed ≤ s.buf.fifo.size →
        s.unplayed.toNat < (cncBacktrackSpan s.buf.fifo.size s.buf.totalBytes).toNat) := by
  obtain ⟨o, buf, hbuf, hstarting, hback, hfree, hidle, hreach, rfl⟩ :=
    (step_effect hstart).started (List.mem_singleton.mpr rfl)
  have hne := h.asked o hstarting hback
  have hpos : (0 : Word) < cncBacktrackMaxSteps s.buf.fifo.size s.unplayed s.buf.totalBytes
      (cncBacktrackDecelSteps s.stepFreq s.rampRate) :=
    Nat.lt_of_lt_of_le (zeroExtend_pos hne) (BitVec.not_lt.mp (hreach hback hne))
  refine ⟨?_, unplayed_lt_total hpos, unplayed_lt_span hpos⟩
  have hshares := (h.shares.synced hbuf).setRegs o (.inl rfl)
  have hplayer := Pulsebuf.player_setRegs buf o
  rw [hback, if_pos rfl] at hplayer
  have hsame : buf.player = s.buf.player ∧ buf.backtrackDeadStop = s.buf.backtrackDeadStop ∧
      buf.address = s.buf.address := by
    rcases hbuf with rfl | rfl
    · exact ⟨rfl, rfl, rfl⟩
    · exact ⟨rfl, rfl, rfl⟩
  obtain ⟨hp, hstop, haddr⟩ := hsame
  rw [hp, hstop] at hplayer
  refine ⟨hshares, (Pulsebuf.address_setEngine _ _).trans haddr, Nat.zero_le _, fun _ => rfl,
    fun _ => ⟨hfree, rfl⟩, ?_, ?_, ?_⟩ <;> intro _
  · exact congrArg Player.tail hplayer
  · rw [Nat.cast_zero, sub_zero]
    exact (congrArg Player.head hplayer).trans (Player.start_head _ _ _ _ _)
  · exact .inl (congrArg Player.dir hplayer)

theorem Receding.run {k : Nat} {cell : Word → Word} {h d : Word} {s s' : Playback}
    {as : List Action} {out : List Obs} (hs : Receding k cell h d 0 s)
    (hexec : System.execute step as s = some (out, s'))
    (honly : ∀ e ∈ out, ∀ b, e ≠ .started b) :
    ∃ n, n ≤ (h - d).toNat ∧
      out.flatMap readAddresses = (List.range n).map fun j : Nat => cell (h - j) := by
  have hcollect := System.execute_collects (f := readAddresses)
    (I := fun l s => ∃ n, Receding k cell h d n s ∧
      l = (List.range n).map fun j : Nat => cell (h - j)) ?_ ⟨0, hs, rfl⟩
    (System.along_of_output hexec honly) hexec
  · obtain ⟨n, hn, hread⟩ := hcollect
    exact ⟨n, hn.within, hread⟩
  · rintro l s a r ⟨n, hn, rfl⟩ hquiet hstep
    obtain ⟨m, hm, hread⟩ := hn.effect (step_effect hstep) (hquiet r hstep)
    refine ⟨n + m, hm, ?_⟩
    rw [hread, List.range_add, List.map_append, List.map_map]
    refine congrArg _ (List.map_congr_left ?_)
    intro j _
    rw [Function.comp_apply, Nat.cast_add, sub_sub]

private theorem Effect.quiet {s s' : Playback} {a : Action} {obs : List Obs} (he : Effect s a obs s')
    (ha : ∀ fuel, a ≠ .tick fuel) : ∀ e ∈ obs, readAddresses e = [] := by
  intro e hmem
  cases he with
  | tick htick _ _ => exact absurd htick (ha _)
  | look freq rate _ hobs =>
      rcases hobs with rfl | ⟨e', rfl⟩
      · cases hmem
      · cases List.mem_singleton.mp hmem
        rfl
  | wipe data position _ _ _ =>
      cases data
      · cases hmem
      · rcases List.mem_pair.mp hmem with rfl | rfl <;> rfl
  | wipeFailed data e' _ _ _ =>
      cases data
      · cases List.mem_singleton.mp hmem
        rfl
      · rcases List.mem_pair.mp hmem with rfl | rfl <;> rfl
  | reserve _ _ _ _ _ => cases hmem
  | check _ _ _ _ _ => cases hmem
  | stop => cases hmem
  | _ =>
      cases List.mem_singleton.mp hmem
      rfl

/-- A step reads nothing unless the script fetches a byte in it. -/
theorem quiet_iff {k : Nat} {s : Playback} {a : Action} {r : List Obs × Playback}
    (hs : s.buf.Shares k) (hstep : s.step a = some r) :
    (∀ e ∈ r.1, readAddresses e = []) ↔ ¬s.Fetches a := by
  by_cases ha : ∃ fuel, a = .tick fuel
  · obtain ⟨fuel, rfl⟩ := ha
    obtain ⟨hrun, hr⟩ := Option.ite_none_right_eq_some.mp hstep
    obtain ⟨⟨es, c⟩, hexec, rfl⟩ := Option.map_eq_some_iff.mp hr
    obtain ⟨ph, hw⟩ := hs.waits
    obtain ⟨n, ph', htick, -⟩ := tick_of_exec hw hexec
    have hmid : midRun s.buf.engine = true ↔ ph = .ready := by
      constructor
      · exact ready_of_midRun hw
      · rintro rfl
        exact midRun_of_ready hw
    have hnil : (∀ e ∈ [Obs.played es], readAddresses e = []) ↔ reads es = [] := by
      rw [List.forall_mem_singleton]
      exact List.map_eq_nil_iff
    have hfetch : s.Fetches (.tick fuel) ↔ ph = .ready ∧ ¬s.buf.player.idle := by
      rw [Fetches, hmid]
      simp [hrun]
    rw [hfetch, hnil, htick.reads_eq_nil_iff, not_and_or, not_not]
    rfl
  · have hother : ∀ fuel, a ≠ .tick fuel := fun fuel h => ha ⟨fuel, h⟩
    have hquiet := Effect.quiet (step_effect hstep) hother
    have hfetch : ¬s.Fetches a := by
      cases a with
      | tick fuel => exact absurd rfl (hother fuel)
      | _ => exact id
    exact iff_of_true hquiet hfetch

theorem index_cast {k t : Nat} {s : Playback} (h : Counted k t s) (j : Nat) :
    ((s.playPosition t - j : Int) : Word) = s.buf.player.head - j := by
  have hhead : s.buf.player.head = t - s.unplayed := by
    rw [unplayed, h.written]
    abel
  rw [hhead, playPosition]
  push_cast
  rw [natCast_toNat]

/-- Only the first byte of a backward run is out of bounds: it is the next one to play,
not one that was played. The others are legal while the unplayed bytes fit the ring. -/
theorem legal_walkBack {k t n : Nat} {s : Playback} (h : Counted k t s)
    (hspan : s.unplayed.toNat < (cncBacktrackSpan s.buf.fifo.size s.buf.totalBytes).toNat)
    (hn : n ≤ (s.buf.player.head - s.buf.backtrackDeadStop).toNat) :
    ∀ i ∈ walkBack (s.playPosition t) n, i ≠ s.playPosition t → s.Legal t i := by
  have hstop : s.buf.player.head - s.buf.backtrackDeadStop =
      cncBacktrackSpan s.buf.fifo.size s.buf.totalBytes - s.unplayed := by
    rw [Pulsebuf.backtrackDeadStop, unplayed]
    abel
  have htotal : s.buf.totalBytes.toNat ≤ t := by
    rw [h.total, BitVec.natCast_eq_ofNat, BitVec.toNat_ofNat]
    exact Nat.mod_le _ _
  rw [hstop, BitVec.toNat_sub_of_le (Nat.le_of_lt hspan)] at hn
  rw [cncBacktrackSpan_toNat] at hspan hn
  intro i hi hne
  obtain ⟨j, hj, rfl⟩ := List.mem_map.mp hi
  have hlt := List.mem_range.mp hj
  unfold playPosition at hne
  unfold Legal playPosition
  omega

theorem backtrack_reads_legal_iff {ringMb : Nat} {args : ScriptArgs} {as bs : List Action}
    {out out₁ : List Obs} {s s₁ s₂ : Playback} {w : StartOutcome}
    (hreach : System.execute step as (probe ringMb args) = some (out, s))
    (hstart : s.step (.startCommit w) = some ([.started true], s₁))
    (hrun : System.execute step bs s₁ = some (out₁, s₂))
    (honly : ∀ b, Obs.started b ∉ out₁) :
    ∃ n, out₁.flatMap readAddresses = (walkBack (s.playPosition (enqueued out)) n).map
        (fun i : Int => s.buf.address i) ∧
      ((∀ i ∈ walkBack (s.playPosition (enqueued out)) n, s.Legal (enqueued out) i) ↔
        System.Along step (fun s a => ¬s.Fetches a) bs s₁) ∧
      (s.unplayed ≤ s.buf.fifo.size →
        ∀ i ∈ walkBack (s.playPosition (enqueued out)) n,
          i ≠ s.playPosition (enqueued out) → s.Legal (enqueued out) i) := by
  obtain ⟨k, hcounted⟩ := counted_run hreach
  obtain ⟨hreceding, -, hspan⟩ := receding_of_commit hcounted hstart
  have honly' : ∀ e ∈ out₁, ∀ b, e ≠ .started b := by
    rintro e he b rfl
    exact honly b he
  obtain ⟨n, hn, hread⟩ := hreceding.run hrun honly'
  have hquiet : (∀ e ∈ out₁, readAddresses e = []) ↔
      System.Along step (fun s a => ¬s.Fetches a) bs s₁ := by
    refine System.execute_quiet_iff (I := fun s' => ∃ n, Receding k s.buf.address
      s.buf.player.head s.buf.backtrackDeadStop n s') ?_ ⟨0, hreceding⟩
      (System.along_of_output hrun honly') hrun
    rintro s' a r ⟨n, hn⟩ hother hstep
    obtain ⟨m, hm, -⟩ := hn.effect (step_effect hstep) (hother r hstep)
    exact ⟨⟨n + m, hm⟩, quiet_iff hn.shares hstep⟩
  have hnone : (∀ e ∈ out₁, readAddresses e = []) ↔ n = 0 := by
    rw [← List.flatMap_eq_nil_iff, hread]
    simp
  refine ⟨n, ?_, ?_, ?_⟩
  · rw [hread, walkBack, List.map_map]
    apply List.map_congr_left
    intro j _
    rw [Function.comp_apply, index_cast hcounted]
  · rw [← hquiet, hnone]
    constructor
    · intro hlegal
      by_contra hn0
      have hfirst : s.playPosition (enqueued out) ∈ walkBack (s.playPosition (enqueued out)) n :=
        List.mem_map.mpr ⟨0, List.mem_range.mpr (Nat.pos_of_ne_zero hn0), by simp⟩
      exact absurd (hlegal _ hfirst).1 (lt_irrefl _)
    · rintro rfl i hi
      cases hi
  · intro hring
    exact legal_walkBack hcounted (hspan hring) hn

private def still : ScriptArgs := .over fun _ => 0

/-- Three bytes of a job are written and two of them played, at the slowest feed. -/
private def pausedJob : List Action :=
  [.setStepFrequency 1000, .setRampRate 500000,
    .writeBegin [0x80, 0, 0] true, .writeCopy .all, .writePublish true,
    .startCheck .run true true, .startCommit .granted,
    .tick 200, .tick 200, .stop, .startCheck (.resume (-1)) true true]

private theorem pausedJob_walks :
    ∃ out s s₁ r₂, System.execute step pausedJob (probe 1 still) = some (out, s) ∧
      s.step (.startCommit .granted) = some ([.started true], s₁) ∧
      System.execute step [.tick 200] s₁ = some r₂ ∧ (∀ b, Obs.started b ∉ r₂.1) ∧
      s.playPosition (enqueued out) = 2 ∧ s.buf.address 2 = 0x20000002 ∧
      r₂.1.flatMap readAddresses = [0x20000002] := by
  have h : ((System.execute step pausedJob (probe 1 still)).bind fun r =>
      (r.2.step (.startCommit .granted)).bind fun r₁ =>
        (System.execute step [.tick 200] r₁.2).map fun r₂ =>
          (r.2.playPosition (enqueued r.1), r.2.buf.address 2, r₁.1, r₂.1.flatMap readAddresses,
            decide (∀ b, Obs.started b ∉ r₂.1))) =
      some (2, 0x20000002, [.started true], [0x20000002], true) := by decide +kernel
  obtain ⟨⟨out, s⟩, hpaused, h⟩ := Option.bind_eq_some_iff.mp h
  obtain ⟨⟨obs, s₁⟩, hstart, h⟩ := Option.bind_eq_some_iff.mp h
  obtain ⟨r₂, hrun, h⟩ := Option.map_eq_some_iff.mp h
  simp only [Prod.mk.injEq, decide_eq_true_eq] at h
  obtain ⟨hplay, haddr, rfl, hread, honly⟩ := h
  exact ⟨out, s, s₁, r₂, hpaused, hstart, hrun, honly, hplay, haddr, hread⟩

theorem backtrack_reads_legal_iff_paused :
    ∃ out s s₁ r₂ n, System.execute step pausedJob (probe 1 still) = some (out, s) ∧
      s.step (.startCommit .granted) = some ([.started true], s₁) ∧
      System.execute step [.tick 200] s₁ = some r₂ ∧
      ((∀ i ∈ walkBack (s.playPosition (enqueued out)) n, s.Legal (enqueued out) i) ↔
        System.Along step (fun s a => ¬s.Fetches a) [.tick 200] s₁) := by
  obtain ⟨out, s, s₁, r₂, hpaused, hstart, hrun, honly, -⟩ :=
    pausedJob_walks
  obtain ⟨n, -, hiff, -⟩ := backtrack_reads_legal_iff hpaused hstart hrun honly
  exact ⟨out, s, s₁, r₂, n, hpaused, hstart, hrun, hiff⟩

/-- The first byte of the backward run is the third of the job, which was not played. -/
theorem backtrack_reads_legal_false :
    ¬∀ (ringMb : Nat) (args : ScriptArgs) (as bs : List Action) (out out₁ : List Obs)
      (s s₁ s₂ : Playback) (w : StartOutcome) (n : Nat),
      System.execute step as (probe ringMb args) = some (out, s) →
      s.step (.startCommit w) = some ([.started true], s₁) →
      System.execute step bs s₁ = some (out₁, s₂) → (∀ b, Obs.started b ∉ out₁) →
      out₁.flatMap readAddresses = (walkBack (s.playPosition (enqueued out)) n).map
        (fun i : Int => s.buf.address i) →
      ∀ i ∈ walkBack (s.playPosition (enqueued out)) n, s.Legal (enqueued out) i := by
  intro h
  obtain ⟨out, s, s₁, r₂, hpaused, hstart, hrun, honly, hplay, haddr, hread⟩ :=
    pausedJob_walks
  have htwo : ((2 : Int) : Word) = 2 := rfl
  have hcells : r₂.1.flatMap readAddresses = (walkBack (s.playPosition (enqueued out)) 1).map
      (fun i : Int => s.buf.address i) := by
    rw [hread, hplay]
    change [0x20000002] = [s.buf.address (((2 : Int) - (0 : Nat) : Int) : Word)]
    rw [Nat.cast_zero, sub_zero, htwo, haddr]
  have hlegal := h 1 still pausedJob [.tick 200] out r₂.1 s s₁ r₂.2 .granted 1 hpaused hstart hrun
    honly hcells 2 (by rw [hplay]; decide)
  have hbelow := hlegal.1
  rw [hplay] at hbelow
  exact absurd hbelow (by decide)

end Playback

end Glowforge.Cnc
