import Glowforge.Cnc.Indexed

/-! What the operations do when nothing stands in their way, shown on a job of blank
bytes: writes with room are accepted, starts commit, and each tick plays one byte. -/
namespace Glowforge.Cnc
open Foundation Sdma Player

namespace Playback

/-- A ring of blank bytes, played at the slowest feed. -/
structure Blank (ph : Phase) (k t p : Nat) (s : Playback) : Prop extends Indexed k t p s where
  phase : ph.Waits s.buf.engine
  mem : s.buf.player.mem = fun _ => 0
  base : s.buf.phys ≠ 0
  freq : s.stepFreq = 1000
  ramp : s.rampStepFreqDelta = 5000
  moving : s.running = true → s.buf.player.dir ≠ 0

/-- Operations whose transfers succeed take one state to the other. -/
def Leads (s s' : Playback) : Prop :=
  ∃ as out, (∀ a ∈ as, a.transfers = true) ∧ System.execute step as s = some (out, s')

theorem Leads.trans {s s' s'' : Playback} (first : Leads s s') (second : Leads s' s'') :
    Leads s s'' :=
  System.execute_trans first second

theorem Leads.step {s s' : Playback} {a : Action} {obs : List Obs} (ha : a.transfers = true)
    (h : s.step a = some (obs, s')) : Leads s s' := by
  refine ⟨[a], obs, by simpa using ha, ?_⟩
  simp [System.execute, h]

/-- As `Leads`, with no backward run begun. -/
def Feeds (s s' : Playback) : Prop :=
  ∃ as out, (∀ a ∈ as, a.transfers = true ∧ a.forward = true) ∧
    System.execute step as s = some (out, s')

theorem Feeds.leads {s s' : Playback} (h : Feeds s s') : Leads s s' := by
  obtain ⟨as, out, has, hexec⟩ := h
  exact ⟨as, out, fun a ha => (has a ha).1, hexec⟩

theorem Feeds.refl (s : Playback) : Feeds s s := ⟨[], [], by simp, rfl⟩

theorem Feeds.trans {s s' s'' : Playback} (first : Feeds s s') (second : Feeds s' s'') :
    Feeds s s'' :=
  System.execute_trans first second

theorem Feeds.step {s s' : Playback} {a : Action} {obs : List Obs} (ha : a.transfers = true)
    (hforward : a.forward = true) (h : s.step a = some (obs, s')) : Feeds s s' := by
  refine ⟨[a], obs, by simp [ha, hforward], ?_⟩
  simp [System.execute, h]

theorem storeRing_blank (base mask i : Word) (n : Nat) :
    storeRing base mask i (List.replicate n (0 : Byte)) (fun _ => 0) = fun _ => 0 := by
  induction n generalizing i with
  | zero => rfl
  | succ n ih =>
      rw [List.replicate_succ, storeRing]
      have hsame : Function.update (fun _ : Word => (0 : Byte)) ((i &&& mask) + base) 0 = fun _ => 0 :=
        Function.update_eq_self _ _
      rw [hsame, ih]

theorem Indexed.admits {k t p n : Nat} {s : Playback} (h : Indexed k t p s)
    (hroom : t + n + 2 ^ 15 ≤ p + 2 ^ k) :
    s.Admits n ∧ n ≤ s.buf.synced.fifo.avail.toNat := by
  have hunplayed : (s.buf.synced.fifo.inIndex - s.buf.synced.fifo.outIndex).toNat = t - p :=
    h.unplayed
  have hle := h.behind.trans (published_le t s.writer)
  have hsize := h.shares.ring.size_lt
  have havail := (h.shares.synced (.inr rfl)).avail_toNat (by rw [hunplayed]; omega)
  have hgap : cncBufferGapSize.toNat = 2 ^ 15 := rfl
  rw [Admits, BitVec.lt_def, havail, hunplayed, BitVec.toNat_add, BitVec.toNat_ofNat, hgap]
  omega

/-! A write, in its three steps. -/

theorem Blank.begin {ph : Phase} {k t p : Nat} {s : Playback} (h : Blank ph k t p s)
    (data : List Byte) (hfree : s.writer = none) (hback : s.runningBackward = false)
    (hroom : t + data.length + 2 ^ 15 ≤ p + 2 ^ k) :
    s.step (.writeBegin data true) =
        some ([], { s with buf := s.buf.synced, writer := some ⟨data, false⟩ }) ∧
      Blank ph k t p { s with buf := s.buf.synced, writer := some ⟨data, false⟩ } := by
  have hle := h.behind.trans (published_le t s.writer)
  have hsize := h.shares.ring.size_lt
  have hshort : data.length < 2 ^ 32 := by omega
  have hahead : ¬(s.running && s.runningBackward) = true := by simp [hback]
  have hadmits : s.Admits data.length := (h.toIndexed.admits hroom).1
  have hstep : s.step (.writeBegin data true) =
      some ([], { s with buf := s.buf.synced, writer := some ⟨data, false⟩ }) := by
    have hgo : s.step (.writeBegin data true) = some (s.writeBegin data true) :=
      if_pos ⟨hfree, hshort⟩
    have hbegin : s.buf.addUserDataBegin (s.running && s.runningBackward) true data.length =
        (.ok (), s.buf.synced) := by
      unfold Pulsebuf.addUserDataBegin Pulsebuf.syncHead
      rw [if_neg hahead]
      exact if_neg hadmits
    rw [hgo, writeBegin, hbegin]
  obtain ⟨q, hq, hsame⟩ := h.toIndexed.effect rfl (step_effect hstep)
  obtain rfl : q = p := hsame (.inl hback)
  exact ⟨hstep, hq, h.phase, h.mem, h.base, h.freq, h.ramp, h.moving⟩

private theorem Blank.copy {ph : Phase} {k t p n : Nat} {s : Playback} (h : Blank ph k t p s)
    (hwriter : s.writer = some ⟨List.replicate n 0, false⟩) (hback : s.runningBackward = false)
    (hfit : n ≤ s.buf.fifo.avail.toNat) :
    ∃ s', s.step (.writeCopy .all) = some ([.queued (List.replicate n 0)], s') ∧
      Blank ph k (t + n) p s' ∧ s'.writer = some ⟨List.replicate n 0, true⟩ ∧
      s'.running = s.running ∧ s'.runningBackward = false ∧ s'.starting = s.starting := by
  have hlen : (List.replicate n (0 : Byte)).length = n := List.length_replicate
  have hmin : min (List.replicate n (0 : Byte)).length s.buf.fifo.avail.toNat =
      (List.replicate n (0 : Byte)).length := by
    rw [hlen]
    exact Nat.min_eq_left hfit
  have hfits : s.CopyFits (List.replicate n 0) .all := trivial
  obtain ⟨b, hcopy, hengine, hphys⟩ : ∃ b, s.buf.addUserDataCopy (List.replicate n 0) .all =
      (.ok (), b) ∧ b.engine = (s.buf.store (List.replicate n 0)).engine ∧ b.phys = s.buf.phys := by
    unfold Pulsebuf.addUserDataCopy
    simp only [hmin, ne_eq, not_true_eq_false, if_false, List.take_length]
    exact ⟨_, rfl, rfl, rfl⟩
  have hstep : s.step (.writeCopy .all) = some ([.queued (List.replicate n 0)],
      { s with buf := b, writer := some ⟨List.replicate n 0, true⟩ }) := by
    have hgo : s.step (.writeCopy .all) = some (s.writeCopy (List.replicate n 0) .all) := by
      simp only [step, hwriter]
      exact if_pos hfits
    rw [hgo, writeCopy, hcopy]
  have hplayer := Pulsebuf.player_store s.buf (List.replicate n 0)
  rw [h.mem, storeRing_blank, ← hengine] at hplayer
  obtain ⟨q, hq, hsame⟩ := h.toIndexed.effect rfl (step_effect hstep)
  obtain rfl : q = p := hsame (.inl hback)
  have hcount : [Obs.queued (List.replicate n (0 : Byte))].foldl tally t = t + n :=
    congrArg (t + ·) hlen
  rw [hcount] at hq
  refine ⟨_, hstep, ⟨hq, ?_, congrArg Player.mem hplayer, ?_, h.freq, h.ramp, ?_⟩, rfl, rfl, hback, rfl⟩
  · change ph.Waits b.engine
    rw [hengine]
    exact h.phase.withMachine rfl
  · change b.phys ≠ 0
    rw [hphys]
    exact h.base
  · intro hrun
    have hdir : b.engine.m.player.dir = s.buf.player.dir :=
      (congrArg Player.dir hplayer).trans rfl
    exact fun hz => h.moving hrun (hdir.symm.trans hz)

private theorem Blank.publish {ph : Phase} {k t p : Nat} {data : List Byte} {s : Playback}
    (h : Blank ph k t p s) (hwriter : s.writer = some ⟨data, true⟩)
    (hback : s.runningBackward = false) :
    ∃ s', s.step (.writePublish true) = some ([.accepted data], s') ∧ Blank ph k t p s' ∧
      s'.writer = none ∧ s'.running = s.running ∧ s'.runningBackward = false ∧
      s'.starting = s.starting := by
  have hstep : s.step (.writePublish true) =
      some ([.accepted data], { s with buf := s.buf.publishTail, writer := none }) := by
    have hpublish : s.buf.addUserDataPublish true = (.ok (), s.buf.publishTail) := rfl
    have hgo : s.step (.writePublish true) = some (s.writePublish data true) := by
      simp only [step, hwriter]
    rw [hgo, writePublish, hpublish]
  have hplayer := Pulsebuf.player_publishTail s.buf
  obtain ⟨q, hq, hsame⟩ := h.toIndexed.effect rfl (step_effect hstep)
  obtain rfl : q = p := hsame (.inl hback)
  refine ⟨_, hstep, ⟨hq, ?_, ?_, h.base, h.freq, h.ramp, ?_⟩, rfl, rfl, hback, rfl⟩
  · exact h.phase.withMachine rfl
  · exact (congrArg Player.mem hplayer).trans h.mem
  · intro hrun hz
    exact h.moving hrun ((congrArg Player.dir hplayer).symm.trans hz)

theorem Blank.write {ph : Phase} {k t p n : Nat} {s : Playback} (h : Blank ph k t p s)
    (hfree : s.writer = none) (hback : s.runningBackward = false)
    (hroom : t + n + 2 ^ 15 ≤ p + 2 ^ k) :
    ∃ s', Feeds s s' ∧ Blank ph k (t + n) p s' ∧ s'.writer = none ∧ s'.running = s.running ∧
      s'.runningBackward = false ∧ s'.starting = s.starting := by
  have hfit := (h.toIndexed.admits hroom).2
  obtain ⟨hbegin, h₁⟩ := h.begin (List.replicate n 0) hfree hback (by rwa [List.length_replicate])
  obtain ⟨s₂, hcopy, h₂, hwriter, hrun₂, hback₂, hstarting₂⟩ := h₁.copy rfl hback hfit
  obtain ⟨s₃, hpublish, h₃, hfree₃, hrun₃, hback₃, hstarting₃⟩ := h₂.publish hwriter hback₂
  have hleads := ((Feeds.step rfl rfl hbegin).trans (.step rfl rfl hcopy)).trans (.step rfl rfl hpublish)
  exact ⟨s₃, hleads, h₃, hfree₃, hrun₃.trans hrun₂, hback₃, hstarting₃.trans hstarting₂⟩

def Available (s : Playback) (o : CncRunOptions) : Prop :=
  o.backward = true →
    ¬cncBacktrackMaxSteps s.buf.fifo.size (s.buf.fifo.inIndex - s.buf.player.head)
        s.buf.totalBytes (cncBacktrackDecelSteps s.stepFreq s.rampRate) < o.numSteps.zeroExtend 32

theorem step_startCommit {s : Playback} {o : CncRunOptions} (hstarting : s.starting = some o)
    (hfree : s.writer = none) (hidle : s.running = false) (hlong : s.Available o) :
    ∃ buf, (buf = s.buf ∨ buf = s.buf.synced) ∧ s.step (.startCommit .granted) =
      some ([.started o.backward], { s with
        buf := { buf with engine := buf.setRegs o }
        starting := none
        running := true
        runningBackward := o.backward }) := by
  have hgo : s.step (.startCommit .granted) = some (s.startCommit o .granted) := by
    simp only [step, hfree, hstarting]
  rw [hgo, startCommit]
  cases hback : o.backward with
  | false =>
      refine ⟨s.buf, .inl rfl, ?_⟩
      simp only [Bool.false_eq_true, if_false, Bool.false_and, StartOutcome.granted, Bool.not_true,
        hidle, Bool.or_self]
  | true =>
      refine ⟨s.buf.synced, .inr rfl, ?_⟩
      have hmax : s.buf.maxBacktrackLength true s.stepFreq s.rampRate =
          (cncBacktrackMaxSteps s.buf.fifo.size (s.buf.fifo.inIndex - s.buf.player.head)
            s.buf.totalBytes (cncBacktrackDecelSteps s.stepFreq s.rampRate), s.buf.synced) := rfl
      simp only [if_true, StartOutcome.granted, hmax, Bool.true_and, decide_eq_false (hlong hback),
        Bool.false_eq_true, if_false, Bool.not_true, hidle, Bool.or_self]

theorem step_startCheck {s : Playback} {call : StartCall} {o : CncRunOptions}
    (hcall : call.options = .ok o) (hstarting : s.starting = none) (hidle : s.running = false)
    (hfull : s.buf.synced.fifo.isEmpty = false) :
    s.step (.startCheck call true true) =
      some ([], { s with buf := s.buf.synced, starting := some o }) := by
  have hgo : s.step (.startCheck call true true) = some (s.startCheck o true true) := by
    simp only [step, hcall]
    exact if_pos hstarting
  have hempty : s.buf.isEmpty true = (false, s.buf.synced) := by
    rw [← hfull]
    rfl
  have hrun : ¬s.running = true := by simp [hidle]
  rw [hgo, startCheck, if_neg hrun, hempty]
  rfl

theorem Blank.start {ph : Phase} {k t p : Nat} {s : Playback} (h : Blank ph k t p s)
    (call : StartCall) {o : CncRunOptions} (hcall : call.options = .ok o)
    (hfree : s.writer = none) (hstarting : s.starting = none) (hidle : s.running = false)
    (hback : s.runningBackward = false) (hunplayed : p < t) (hlong : s.Available o) :
    ∃ s' s'', s.step (.startCheck call true true) = some ([], s') ∧
      s'.step (.startCommit .granted) = some ([.started o.backward], s'') ∧
      Blank ph k t p s'' ∧ s''.writer = none ∧ s''.starting = none ∧
      s''.running = true ∧ s''.runningBackward = o.backward := by
  have hfull : s.buf.synced.fifo.isEmpty = false := by
    have hne : s.buf.fifo.inIndex ≠ s.buf.player.head := by
      intro heq
      have hzero := h.unplayed
      rw [heq, sub_self] at hzero
      change 0 = t - p at hzero
      omega
    exact beq_eq_false_iff_ne.mpr hne
  have hcheck := step_startCheck hcall hstarting hidle hfull
  obtain ⟨q, h₁, hq⟩ := h.toIndexed.effect rfl (step_effect hcheck)
  obtain rfl : q = p := hq (.inl hback)
  obtain ⟨buf, hbuf, hcommit⟩ := step_startCommit
    (s := { s with buf := s.buf.synced, starting := some o }) rfl hfree hidle hlong
  obtain ⟨q', h₂, hq'⟩ := h₁.effect rfl (step_effect hcommit)
  obtain rfl : q' = q := hq' (.inl hback)
  have hplayer := Pulsebuf.player_setRegs buf o
  have hsame : buf.engine = s.buf.engine ∧ buf.phys = s.buf.phys := by
    rcases hbuf with rfl | rfl <;> exact ⟨rfl, rfl⟩
  refine ⟨_, _, hcheck, hcommit, ⟨h₂, ?_, ?_, ?_, h.freq, h.ramp, ?_⟩, hfree, rfl, rfl, rfl⟩
  · have hphase : ph.Waits buf.engine := by
      rw [hsame.1]
      exact h.phase
    exact hphase.start _ _ _ _
  · have hmem : buf.player.mem = fun _ => 0 := by
      rw [Pulsebuf.player, hsame.1]
      exact h.mem
    exact (congrArg Player.mem hplayer).trans hmem
  · change buf.phys ≠ 0
    rw [hsame.2]
    exact h.base
  · intro _ hz
    have hdir := (congrArg Player.dir hplayer).symm.trans hz
    rw [Player.start_dir] at hdir
    split at hdir <;> exact absurd hdir (by decide)

private theorem Blank.tick {ph ph' : Phase} {k t p n : Nat} {s : Playback} {es : List Event}
    {p' : Player} (h : Blank ph k t p s) (hrun : s.running = true)
    (htick : Tick n ph s.buf.player es ph' p') (hdir : p'.dir = s.buf.player.dir) :
    ∃ c q, Feeds s { s with buf := { s.buf with engine := c } } ∧
      Blank ph' k t q { s with buf := { s.buf with engine := c } } ∧
      (s.runningBackward = false → q = p + n) ∧ (s.runningBackward = true → q + n = p) := by
  obtain ⟨c, hexec, hw, hp'⟩ := exec_of_tick htick h.phase rfl
  have hstep : s.step (.tick (153 * n + 158)) =
      some ([.played es], { s with buf := { s.buf with engine := c } }) := by
    have hhost : s.buf.engine.host (.tick (153 * n + 158)) = some (es, c) := hexec
    have hgo : s.step (.tick (153 * n + 158)) =
        (s.buf.engine.host (.tick (153 * n + 158))).map fun r =>
          ([.played r.1], { s with buf := { s.buf with engine := r.2 } }) := if_pos hrun
    rw [hgo, hhost]
    rfl
  obtain ⟨q, hq, hforward, hbackward⟩ := h.toIndexed.tick (step_effect hstep) hrun hexec
  have hlen : (reads es).length = n := by
    rw [htick.walked.reads, cells, List.length_map, List.length_range]
  rw [hlen] at hforward hbackward
  have hmem : c.m.player.mem = s.buf.player.mem := by
    rw [hp']
    exact congrArg Setup.mem htick.setup
  refine ⟨c, q, .step rfl rfl hstep, ⟨hq, hw, hmem.trans h.mem, h.base, h.freq, h.ramp, ?_⟩, hforward,
    hbackward⟩
  intro _ hz
  have hsame : c.m.player.dir = s.buf.player.dir := by
    rw [hp', hdir]
  exact h.moving hrun (hsame.symm.trans hz)

theorem Blank.boot {k t p : Nat} {s : Playback} (h : Blank .boot k t p s) (hrun : s.running = true)
    (hback : s.runningBackward = false) :
    ∃ c, Feeds s { s with buf := { s.buf with engine := c } } ∧
      Blank .ready k t p { s with buf := { s.buf with engine := c } } := by
  obtain ⟨c, q, hleads, hq, hforward, -⟩ := h.tick hrun (.restart (by decide)) rfl
  obtain rfl : q = p := hforward hback
  exact ⟨c, hleads, hq⟩

theorem Blank.playOne {k t p : Nat} {s : Playback} (h : Blank .ready k t p s)
    (hrun : s.running = true)
    (hmeet : s.buf.player.head &&& s.buf.player.mask ≠ s.buf.player.tail &&& s.buf.player.mask) :
    ∃ c q, Feeds s { s with buf := { s.buf with engine := c } } ∧
      Blank .ready k t q { s with buf := { s.buf with engine := c } } ∧
      (s.runningBackward = false → q = p + 1) ∧ (s.runningBackward = true → q + 1 = p) := by
  have hbase : s.buf.player.base ≠ 0 := by
    rw [h.shares.base]
    exact h.base
  have hbusy : ¬s.buf.player.idle := not_idle_iff.mpr ⟨h.moving hrun, hbase, hmeet⟩
  have hpulse : bit s.buf.player.pulse 7 = false := by
    rw [pulse, h.mem]
    exact (by decide : bit (0 : Byte) 7 = false)
  have hagain : s.buf.player.again = false := h.phase.2.1
  exact h.tick hrun (.play (.last hbusy (consume_again_of_motion hpulse hagain)))
    (consume_dir s.buf.player)

private theorem Indexed.apart {k t p : Nat} {s : Playback} (h : Indexed k t p s) {q r : Nat}
    (hne : ¬2 ^ k ∣ q - r) (hle : r ≤ q) (hlt : q - r < 2 ^ 32) :
    (q : Word) &&& s.buf.player.mask ≠ (r : Word) &&& s.buf.player.mask := by
  rw [h.shares.mask, Ne, h.shares.ring.and_eq_iff, ← Nat.cast_sub hle, BitVec.natCast_eq_ofNat,
    BitVec.toNat_ofNat, Nat.mod_eq_of_lt hlt]
  exact hne

theorem Blank.playForward {k t p n : Nat} {s : Playback} (h : Blank .ready k t p s)
    (hrun : s.running = true) (hback : s.runningBackward = false) (hfree : s.writer = none)
    (hn : p + n ≤ t) (hroom : t < p + 2 ^ k) :
    ∃ c, Feeds s { s with buf := { s.buf with engine := c } } ∧
      Blank .ready k t (p + n) { s with buf := { s.buf with engine := c } } := by
  induction n generalizing p s with
  | zero => exact ⟨s.buf.engine, .refl s, h⟩
  | succ n ih =>
      have hsize := h.shares.ring.size_lt
      have htail := (h.forward hrun hback).tail
      rw [hfree] at htail
      have hapart : s.buf.player.head &&& s.buf.player.mask ≠
          s.buf.player.tail &&& s.buf.player.mask := by
        rw [h.head, htail]
        refine (h.toIndexed.apart (q := t) (r := p) ?_ (by omega) (by omega)).symm
        exact Nat.not_dvd_of_pos_of_lt (by omega) (by omega)
      obtain ⟨c, q, hleads, hq, hnext, -⟩ := h.playOne hrun hapart
      obtain rfl := hnext hback
      obtain ⟨c', hleads', hq'⟩ := ih hq hrun hback hfree (by omega) (by omega)
      rw [Nat.add_assoc, Nat.add_comm 1 n] at hq'
      exact ⟨c', hleads.trans hleads', hq'⟩

theorem Blank.playBackward {k t p n : Nat} {s : Playback} (h : Blank .ready k t p s)
    (hrun : s.running = true) (hback : s.runningBackward = true) (hn : t - s.span + n ≤ p)
    (hp : p < t) :
    ∃ c, Feeds s { s with buf := { s.buf with engine := c } } ∧
      Blank .ready k t (p - n) { s with buf := { s.buf with engine := c } } := by
  induction n generalizing p s with
  | zero => exact ⟨s.buf.engine, .refl s, h⟩
  | succ n ih =>
      have hsize := h.shares.ring.size_lt
      have hspan := span_le h.toCounted
      have hapart : s.buf.player.head &&& s.buf.player.mask ≠
          s.buf.player.tail &&& s.buf.player.mask := by
        rw [h.head, (h.backward hrun hback).tail]
        refine h.toIndexed.apart ?_ (by omega) (by omega)
        exact Nat.not_dvd_of_pos_of_lt (by omega) (by omega)
      obtain ⟨c, q, hleads, hq, -, hnext⟩ := h.playOne hrun hapart
      obtain rfl := hnext hback
      obtain ⟨c', hleads', hq'⟩ := ih hq hrun hback (by change t - s.span + n ≤ q; omega) (by omega)
      rw [Nat.sub_eq_of_eq_add (by omega : q + 1 = (q - n) + (n + 1))]
      exact ⟨c', hleads.trans hleads', hq'⟩

theorem Blank.stop {ph : Phase} {k t p : Nat} {s : Playback} (h : Blank ph k t p s) :
    Feeds s { s with running := false, runningBackward := false } ∧
      Blank ph k t p { s with running := false, runningBackward := false } := by
  have hstep : s.step .stop = some ([], { s with running := false, runningBackward := false }) := rfl
  have hcounted := h.toCounted.effect (step_effect hstep)
  refine ⟨.step rfl rfl hstep, .resting hcounted rfl h.head h.behind h.room h.writing, h.phase, h.mem,
    h.base, h.freq, h.ramp, ?_⟩
  intro hrun
  cases hrun

theorem blank_ring {ringMb k : Nat} (hsize : ringMbOrDefault ringMb * 2 ^ 20 = 2 ^ k)
    (hk : k < 32) :
    ∃ s, Feeds (probe ringMb (.over fun _ => 0)) s ∧ Blank .boot k 0 0 s ∧ s.writer = none ∧
      s.starting = none ∧ s.running = false ∧ s.runningBackward = false := by
  obtain ⟨j, hj⟩ := indexed_probe ringMb (.over fun _ => 0)
  obtain rfl : j = k := by
    have hring := hj.shares.size_toNat
    have hinit : (probe ringMb (.over fun _ => 0)).buf.fifo.size =
        BitVec.ofNat 32 (ringMbOrDefault ringMb * 2 ^ 20) := sub_add_cancel _ _
    rw [hinit, hsize, BitVec.toNat_ofNat, Nat.mod_eq_of_lt (Nat.pow_lt_pow_right (by decide) hk)]
      at hring
    exact Nat.pow_right_injective (le_refl 2) hring.symm
  have hfreq : (probe ringMb (.over fun _ => 0)).step (.setStepFrequency 1000) =
      some ([], { probe ringMb (.over fun _ => 0) with stepFreq := 1000 }) := rfl
  obtain ⟨q, h₁, hq⟩ := hj.effect rfl (step_effect hfreq)
  obtain rfl : q = 0 := hq (.inl rfl)
  have hramp : Playback.step { probe ringMb (.over fun _ => 0) with stepFreq := 1000 }
      (.setRampRate 500000) = some ([], { probe ringMb (.over fun _ => 0) with
        stepFreq := 1000, rampStepFreqDelta := 5000 }) := rfl
  obtain ⟨q, h₂, hq⟩ := h₁.effect rfl (step_effect hramp)
  obtain rfl : q = 0 := hq (.inl rfl)
  refine ⟨_, (Feeds.step rfl rfl hfreq).trans (.step rfl rfl hramp),
    ⟨h₂, waits_load _, rfl, ?_, rfl, rfl, ?_⟩, rfl, rfl, rfl, rfl⟩
  · exact (by decide : (0x20000000 : Word) ≠ 0)
  · intro hrun
    cases hrun

theorem blank_slow :
    ∃ s, Feeds (probe 1 (.over fun _ => 0)) s ∧ Blank .boot 20 0 0 s ∧ s.writer = none ∧
      s.starting = none ∧ s.running = false ∧ s.runningBackward = false :=
  blank_ring (by decide) (by decide)

end Playback

end Glowforge.Cnc
