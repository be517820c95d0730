import Glowforge.Cnc.Progress

/-! Two tests for an empty ring. The script compares its head with the tail under the
mask, which cannot tell a full ring from an empty one; the host compares the free-running
indices. -/
namespace Glowforge.Cnc
open Foundation Sdma

namespace Playback

/-- The script's test. -/
def ScriptEmpty (s : Playback) : Prop :=
  s.buf.player.head &&& s.buf.player.mask = s.buf.player.tail &&& s.buf.player.mask

/-- The host's test, with a fresh head. -/
def HostEmpty (s : Playback) : Prop := s.buf.synced.fifo.isEmpty = true

theorem scriptEmpty_iff {k t p : Nat} {s : Playback} (h : Indexed k t p s)
    (htail : s.buf.player.tail = s.buf.fifo.inIndex) : s.ScriptEmpty ↔ 2 ^ k ∣ t - p := by
  rw [ScriptEmpty, eq_comm, h.shares.mask, h.shares.ring.and_eq_iff, htail, h.unplayed]

theorem hostEmpty_iff {k t p : Nat} {s : Playback} (h : Indexed k t p s) :
    s.HostEmpty ↔ t - p = 0 := by
  have hzero : s.HostEmpty ↔ s.buf.fifo.inIndex - s.buf.player.head = 0 := by
    rw [sub_eq_zero]
    exact beq_iff_eq
  rw [hzero, ← h.unplayed]
  exact BitVec.toNat_inj.symm

/-- The tests disagree on a full ring, and on no other; a ring is never more than full. -/
theorem empty_tests_agree_iff {ringMb : Nat} {args : ScriptArgs} {as : List Action}
    {out : List Obs} {s s₁ : Playback} {w : StartOutcome}
    (hreach : System.execute step as (probe ringMb args) = some (out, s))
    (htransfers : ∀ a ∈ as, a.transfers = true)
    (hstart : s.step (.startCommit w) = some ([.started false], s₁)) :
    s.buf.fifo.inIndex - s.buf.player.head ≤ s.buf.fifo.size ∧
      s₁.buf.player.tail = s₁.buf.fifo.inIndex ∧
      ((s₁.ScriptEmpty ↔ s₁.HostEmpty) ↔
        s.buf.fifo.inIndex - s.buf.player.head ≠ s.buf.fifo.size) := by
  obtain ⟨k, p, h⟩ := indexed_run hreach htransfers
  have he : Effect s (.startCommit w) [.started false] s₁ := step_effect hstart
  have hcounted := h.toCounted.effect he
  obtain ⟨o, buf, hbuf, hstarting, hback, hfree, -, hlong, hs₁⟩ :=
    he.started (List.mem_singleton.mpr rfl)
  have hback₁ : s₁.runningBackward = false := by rw [hs₁]
  rw [← hback] at hs₁
  have h₁ := h.commit hbuf hstarting hfree hlong hs₁ hcounted
  have hforward := h₁.forward (by rw [hs₁]) hback₁
  have hsize := h.shares.size_toNat
  have hroom := h.room
  have hpos := Nat.two_pow_pos k
  have htail : s₁.buf.player.tail = s₁.buf.fifo.inIndex := by
    have hwriter : s₁.writer = none := by rw [hs₁, hfree]
    rw [hforward.tail, h₁.written, hwriter]
    rfl
  have hfull : s.buf.fifo.inIndex - s.buf.player.head = s.buf.fifo.size ↔
      enqueued out - p = 2 ^ k := by
    rw [← BitVec.toNat_inj, h.unplayed, hsize]
  refine ⟨?_, htail, ?_⟩
  · rw [BitVec.le_def, h.unplayed, hsize]
    omega
  · rw [scriptEmpty_iff h₁ htail, hostEmpty_iff h₁, Ne, hfull]
    constructor
    · intro hagree hsame
      rw [hsame] at hagree
      exact absurd (hagree.mp (Nat.dvd_refl _)) (Nat.ne_of_gt hpos)
    · intro hne
      constructor
      · intro hdvd
        by_contra hnz
        have hle := Nat.le_of_dvd (Nat.pos_of_ne_zero hnz) hdvd
        omega
      · intro hzero
        rw [hzero]
        exact Nat.dvd_zero _

private def blankArgs : ScriptArgs := .over fun _ => 0

private theorem available_slow {ph : Player.Phase} {s : Playback}
    (h : Blank ph 20 (2 ^ 20) (2 ^ 15) s) : s.Available ⟨1, true, true, true, true⟩ := by
  intro _ hshort
  have htotal : s.buf.totalBytes.toNat = 2 ^ 20 := by
    rw [h.total]
    rfl
  have hsize := h.shares.size_toNat
  have hunplayed := h.unplayed
  have hresident : (s.buf.fifo.size - (s.buf.fifo.inIndex - s.buf.player.head)).toNat = 2 ^ 15 := by
    rw [BitVec.toNat_sub_of_le (BitVec.le_def.mpr (by rw [hunplayed, hsize]; decide)), hsize,
      hunplayed]
    decide
  have hdecel : (cncBacktrackDecelSteps s.stepFreq s.rampRate).toNat = 1 := by
    rw [rampRate, h.freq, h.ramp]
    decide
  rw [BitVec.lt_def, cncBacktrackMaxSteps_toNat, htotal, hunplayed, hresident, hdecel] at hshort
  exact absurd hshort (by decide)

/-- A megabyte is fed to a job that has played 32 KiB when it is paused; the pause walks
back to the first byte, and the resume takes the full ring for an empty one. -/
private theorem fullRing :
    ∃ s s₁, Leads (probe 1 blankArgs) s ∧
      s.step (.startCommit .granted) = some ([.started false], s₁) ∧ Indexed 20 (2 ^ 20) 0 s₁ ∧
      s₁.buf.player.tail = s₁.buf.fifo.inIndex := by
  obtain ⟨s₀, hl₀, h₀, hfree₀, hasked₀, hidle₀, hback₀⟩ := blank_slow
  obtain ⟨s₁, hl₁, h₁, hfree₁, hrun₁, hback₁, hasked₁⟩ :=
    h₀.write (n := 2 ^ 20 - 2 ^ 15) hfree₀ hback₀ (by omega)
  obtain ⟨s₂', s₂, hcheck₂, hstep₂, h₂, hfree₂, hasked₂, hrun₂, hback₂⟩ :=
    h₁.start .run rfl hfree₁ (hasked₁.trans hasked₀) (hrun₁.trans hidle₀) hback₁ (by omega)
      (fun hb => nomatch hb)
  obtain ⟨c₃, hl₃, h₃⟩ := h₂.boot hrun₂ hback₂
  obtain ⟨c₄, hl₄, h₄⟩ := h₃.playForward (n := 2 ^ 15) hrun₂ hback₂ hfree₂ (by omega) (by omega)
  obtain ⟨s₅, hl₅, h₅, hfree₅, hrun₅, hback₅, hasked₅⟩ :=
    h₄.write (n := 2 ^ 15) hfree₂ hback₂ (by omega)
  obtain ⟨hl₆, h₆⟩ := h₅.stop
  obtain ⟨s₇', s₇, hcheck₇, hstep₇, h₇, hfree₇, hasked₇, hrun₇, hback₇⟩ :=
    h₆.start (.resume (-1)) (o := ⟨1, true, true, true, true⟩) rfl hfree₅
      (hasked₅.trans hasked₂) rfl rfl (by omega) (available_slow h₆)
  have hspan : s₇.span = 2 ^ 20 := by
    have htotal : s₇.buf.totalBytes.toNat = 2 ^ 20 := by
      rw [h₇.total]
      rfl
    rw [span, cncBacktrackSpan_toNat, htotal, h₇.shares.size_toNat]
    decide
  obtain ⟨c₈, hl₈, h₈⟩ := h₇.playBackward (n := 2 ^ 15) hrun₇ hback₇ (by rw [hspan]; decide) (by decide)
  obtain ⟨hl₉, h₉⟩ := h₈.stop
  obtain ⟨s₁₀', s₁₀, hcheck₁₀, hstep₁₀, h₁₀, hfree₁₀, -, hrun₁₀, hback₁₀⟩ :=
    h₉.start .run rfl hfree₇ hasked₇ rfl rfl (by omega) (fun hb => nomatch hb)
  have hfed : Leads (probe 1 blankArgs) s₁ := hl₀.leads.trans hl₁.leads
  have hran : Leads s₁ { s₅ with running := false, runningBackward := false } :=
    (Leads.step rfl hcheck₂).trans ((Leads.step rfl hstep₂).trans (hl₃.leads.trans
      (hl₄.leads.trans (hl₅.leads.trans hl₆.leads))))
  have hback : Leads { s₅ with running := false, runningBackward := false } s₁₀' :=
    (Leads.step rfl hcheck₇).trans ((Leads.step rfl hstep₇).trans (hl₈.leads.trans
      (hl₉.leads.trans (.step rfl hcheck₁₀))))
  have hleads := hfed.trans (hran.trans hback)
  have htail := (h₁₀.forward hrun₁₀ hback₁₀).tail
  rw [hfree₁₀] at htail
  exact ⟨s₁₀', s₁₀, hleads, hstep₁₀, h₁₀.toIndexed, htail.trans h₁₀.written.symm⟩

theorem empty_tests_agree_iff_full :
    ∃ as out s s₁, System.execute step as (probe 1 blankArgs) = some (out, s) ∧
      s.step (.startCommit .granted) = some ([.started false], s₁) ∧
      ((s₁.ScriptEmpty ↔ s₁.HostEmpty) ↔
        s.buf.fifo.inIndex - s.buf.player.head ≠ s.buf.fifo.size) := by
  obtain ⟨s, s₁, ⟨as, out, htransfers, hexec⟩, hstart, -⟩ := fullRing
  exact ⟨as, out, s, s₁, hexec, hstart, (empty_tests_agree_iff hexec htransfers hstart).2.2⟩

theorem empty_tests_agree_false :
    ¬∀ (ringMb : Nat) (args : ScriptArgs) (as : List Action) (out : List Obs) (s s₁ : Playback)
      (w : StartOutcome), System.execute step as (probe ringMb args) = some (out, s) →
      (∀ a ∈ as, a.transfers = true) → s.step (.startCommit w) = some ([.started false], s₁) →
      (s₁.ScriptEmpty ↔ s₁.HostEmpty) := by
  intro h
  obtain ⟨s, s₁, ⟨as, out, htransfers, hexec⟩, hstart, hfull, htail⟩ := fullRing
  have hagree := h 1 blankArgs as out s s₁ .granted hexec htransfers hstart
  rw [scriptEmpty_iff hfull htail, hostEmpty_iff hfull] at hagree
  exact absurd (hagree.mp (Nat.dvd_refl _)) (by decide)

end Playback

end Glowforge.Cnc
