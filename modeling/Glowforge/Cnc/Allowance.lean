import Glowforge.Cnc.HistoryFloor

/-! The advertised allowance. `max_backtrack_show` reports how far back a pause may walk,
and `resume_store` takes the negative of a distance; it refuses what does not fit the 28
bits of the waypoint counter, which a ring of 512 MiB can outgrow. -/
namespace Glowforge.Cnc
open Foundation Sdma

private theorem toInt_ofInt {x : Int} (hlo : -2 ^ 31 ≤ x) (hhi : x < 2 ^ 31) :
    (BitVec.ofInt 32 x).toInt = x := by
  rw [BitVec.toInt_ofInt]
  exact Int.bmod_eq_of_le (by omega) (by omega)

theorem resumeStore_neg {n : Nat} (hpos : 1 ≤ n) (hfits : n < 2 ^ 28) :
    resumeStore (-n) = .ok ⟨BitVec.ofNat 28 n, true, true, true, true⟩ := by
  have hvalue : (BitVec.ofInt 32 (-n)).toInt = -n := toInt_ofInt (by omega) (by omega)
  have hparsed : ¬((-n : Int) < -2147483648 ∨ (-n : Int) > 4294967295) := by omega
  have hneg : (-n : Int) < 0 := by omega
  have hsmall : ¬(- -n : Int) ≥ 2 ^ 28 := by omega
  have hword : BitVec.ofInt 32 (- -n) = BitVec.ofNat 32 n := by
    rw [neg_neg]
    exact BitVec.ofInt_natCast 32 n
  have hfield : (BitVec.ofNat 32 n).truncate 28 = BitVec.ofNat 28 n := by
    apply BitVec.eq_of_toNat_eq
    rw [BitVec.truncate, BitVec.toNat_setWidth, BitVec.toNat_ofNat, BitVec.toNat_ofNat]
    omega
  have hne : BitVec.ofNat 32 n ≠ 0 := by
    intro hz
    have := congrArg BitVec.toNat hz
    rw [BitVec.toNat_ofNat] at this
    change n % 2 ^ 32 = 0 at this
    omega
  unfold resumeStore
  rw [if_neg hparsed]
  simp only [hvalue]
  rw [if_pos hneg, if_neg hsmall, if_pos hneg, hword, cncBacktrack, if_neg hne,
    hfield]

theorem resumeStore_long {n : Nat} (hlong : 2 ^ 28 ≤ n) : resumeStore (-n) = .error .EINVAL := by
  unfold resumeStore
  by_cases hparsed : (-n : Int) < -2147483648 ∨ (-n : Int) > 4294967295
  · rw [if_pos hparsed]
  · have hvalue : (BitVec.ofInt 32 (-n)).toInt = -n := toInt_ofInt (by omega) (by omega)
    have hneg : (-n : Int) < 0 := by omega
    have hmagnitude : (- -n : Int) ≥ 2 ^ 28 := by omega
    rw [if_neg hparsed]
    simp only [hvalue]
    rw [if_pos hneg, if_pos hmagnitude]

namespace Playback

def maxBacktrackShow (s : Playback) : Nat :=
  (s.buf.maxBacktrackLength true s.stepFreq s.rampRate).1.toNat

/-- A whole write to `resume`: every transfer succeeds, and an idle driver without a fault
admits the start. -/
def writeResume (s : Playback) (rawValue : Int) : Option (List Obs × Playback) :=
  (s.step (.startCheck (.resume rawValue) true true)).bind fun r =>
    if r.2.starting = none then some r
    else (r.2.step (.startCommit .granted)).map fun q => (r.1 ++ q.1, q.2)

/-- A run backward has started, with its waypoint after `n` bytes. -/
structure Retraces (n : Nat) (r : List Obs × Playback) : Prop where
  started : .started true ∈ r.1
  running : r.2.running = true
  backward : r.2.runningBackward = true
  waypoint : r.2.buf.player.waypoint.toNat = n

structure Refused (r : List Obs × Playback) : Prop where
  failed : ∃ e, .failed e ∈ r.1
  idle : r.2.running = false

/-- A write of `-n` retraces `n` bytes exactly if the allowance covers them, and a longer
one is refused. -/
def Honours (s : Playback) (n : Nat) : Prop :=
  ∃ r, s.writeResume (-n) = some r ∧ (Retraces n r ↔ 1 ≤ n ∧ n ≤ s.maxBacktrackShow) ∧
    (s.maxBacktrackShow < n → Refused r)

/-- At rest, with nothing under way and data to play. -/
structure Pausing (s : Playback) : Prop where
  idle : s.running = false
  free : s.writer = none
  none : s.starting = none
  unplayed : s.buf.synced.fifo.isEmpty = false

variable {s : Playback} {n : Nat}

theorem Refused.not_retraces {r : List Obs × Playback} (h : Refused r) : ¬Retraces n r := by
  intro hretraces
  exact absurd (hretraces.running.symm.trans h.idle) (by decide)

theorem writeResume_error {rawValue : Int} {e : Errno} (hnone : s.starting = none)
    (hcall : resumeStore rawValue = .error e) : s.writeResume rawValue = some ([.failed e], s) := by
  have hstep : s.step (.startCheck (.resume rawValue) true true) = some ([.failed e], s) := by
    simp only [step, StartCall.options, hcall]
    exact if_pos hnone
  rw [writeResume, hstep, Option.bind_some, if_pos hnone]

theorem writeResume_invalid {rawValue : Int} {e : Errno} (hnone : s.starting = none)
    (hidle : s.running = false) (hcall : resumeStore rawValue = .error e) :
    ∃ r, s.writeResume rawValue = some r ∧ Refused r :=
  ⟨_, writeResume_error hnone hcall, ⟨e, List.mem_singleton_self _⟩, hidle⟩

def asked (s : Playback) (o : CncRunOptions) : Playback :=
  { s with buf := s.buf.synced, starting := some o }

theorem Pausing.writeResume_eq {rawValue : Int} {o : CncRunOptions} (h : s.Pausing)
    (hcall : resumeStore rawValue = .ok o) :
    s.writeResume rawValue = (s.asked o).step (.startCommit .granted) := by
  have hcheck : s.step (.startCheck (.resume rawValue) true true) = some ([], s.asked o) :=
    step_startCheck hcall h.none h.idle h.unplayed
  rw [writeResume, hcheck, Option.bind_some]
  exact congrFun Option.map_id _

theorem Pausing.writeResume_zero (h : s.Pausing) :
    ∃ r, s.writeResume 0 = some r ∧ r.2.runningBackward = false := by
  have hcall : resumeStore 0 = .ok (cncResume 0) := rfl
  obtain ⟨buf, -, hcommit⟩ := step_startCommit (s := s.asked (cncResume 0)) rfl h.free h.idle
    fun hback => nomatch hback
  rw [h.writeResume_eq hcall]
  exact ⟨_, hcommit, rfl⟩

private theorem numSteps_toNat (hfits : n < 2 ^ 28) :
    ((BitVec.ofNat 28 n).zeroExtend 32).toNat = n := by
  rw [BitVec.toNat_setWidth, BitVec.toNat_ofNat, Nat.mod_eq_of_lt hfits,
    Nat.mod_eq_of_lt (by omega)]

theorem Pausing.writeResume_granted (h : s.Pausing) (hpos : 1 ≤ n) (hfits : n < 2 ^ 28)
    (hwithin : n ≤ s.maxBacktrackShow) : ∃ r, s.writeResume (-n) = some r ∧ Retraces n r := by
  have hcall := resumeStore_neg hpos hfits
  have hlong : (s.asked ⟨BitVec.ofNat 28 n, true, true, true, true⟩).Available
      ⟨BitVec.ofNat 28 n, true, true, true, true⟩ := by
    intro _ hlt
    have hless : s.maxBacktrackShow < ((BitVec.ofNat 28 n).zeroExtend 32).toNat := hlt
    rw [numSteps_toNat hfits] at hless
    omega
  obtain ⟨buf, -, hcommit⟩ := step_startCommit
    (s := s.asked ⟨BitVec.ofNat 28 n, true, true, true, true⟩) rfl h.free h.idle hlong
  rw [h.writeResume_eq hcall]
  refine ⟨_, hcommit, List.mem_singleton_self _, rfl, rfl, ?_⟩
  have hplayer := Pulsebuf.player_setRegs buf ⟨BitVec.ofNat 28 n, true, true, true, true⟩
  have hwaypoint := congrArg (fun p : Player => p.waypoint.toNat) hplayer
  exact hwaypoint.trans (numSteps_toNat hfits)

theorem step_startCommit_long {o : CncRunOptions} (hstarting : s.starting = some o)
    (hfree : s.writer = none) (hlong : ¬s.Available o) :
    s.step (.startCommit .granted) =
      some ([.failed .EPERM], { s with buf := s.buf.synced, starting := none }) := by
  have hgo : s.step (.startCommit .granted) = some (s.startCommit o .granted) := by
    simp only [step, hfree, hstarting]
  have hmax : s.buf.maxBacktrackLength true s.stepFreq s.rampRate =
      (cncBacktrackMaxSteps s.buf.fifo.size (s.buf.fifo.inIndex - s.buf.player.head)
        s.buf.totalBytes (cncBacktrackDecelSteps s.stepFreq s.rampRate), s.buf.synced) := rfl
  obtain ⟨hback, hless⟩ := Classical.not_imp.mp hlong
  rw [hgo, startCommit]
  simp only [hback, if_true, StartOutcome.granted, hmax, Bool.true_and,
    decide_eq_true (not_not.mp hless)]

theorem Pausing.writeResume_refused (h : s.Pausing) (hfits : n < 2 ^ 28)
    (hbeyond : s.maxBacktrackShow < n) : ∃ r, s.writeResume (-n) = some r ∧ Refused r := by
  have hcall := resumeStore_neg (by omega) hfits
  have hlong : ¬(s.asked ⟨BitVec.ofNat 28 n, true, true, true, true⟩).Available
      ⟨BitVec.ofNat 28 n, true, true, true, true⟩ := by
    intro havailable
    apply havailable rfl
    change s.maxBacktrackShow < ((BitVec.ofNat 28 n).zeroExtend 32).toNat
    rwa [numSteps_toNat hfits]
  have hcommit := step_startCommit_long
    (s := s.asked ⟨BitVec.ofNat 28 n, true, true, true, true⟩) rfl h.free hlong
  rw [h.writeResume_eq hcall]
  exact ⟨_, hcommit, ⟨.EPERM, List.mem_singleton_self _⟩, h.idle⟩

theorem Pausing.honours_iff (h : s.Pausing) (n : Nat) :
    s.Honours n ↔ ¬(2 ^ 28 ≤ n ∧ n ≤ s.maxBacktrackShow) := by
  constructor
  · rintro ⟨r, hwrite, hretraces, -⟩ ⟨hlong, hwithin⟩
    obtain ⟨q, hq, hrefused⟩ := writeResume_invalid h.none h.idle (resumeStore_long hlong)
    obtain rfl : q = r := Option.some.inj (hq.symm.trans hwrite)
    exact hrefused.not_retraces (hretraces.mpr ⟨by omega, hwithin⟩)
  · intro hcovered
    by_cases hzero : n = 0
    · subst hzero
      obtain ⟨r, hwrite, hforward⟩ := h.writeResume_zero
      refine ⟨r, hwrite, ⟨fun hretraces => ?_, fun hrange => absurd hrange.1 (by decide)⟩,
        fun hbeyond => absurd hbeyond (Nat.not_lt_zero _)⟩
      exact absurd (hforward.symm.trans hretraces.backward) (by decide)
    by_cases hwithin : n ≤ s.maxBacktrackShow
    · have hfits : n < 2 ^ 28 := by omega
      obtain ⟨r, hwrite, hretraces⟩ := h.writeResume_granted (by omega) hfits hwithin
      exact ⟨r, hwrite, ⟨fun _ => ⟨by omega, hwithin⟩, fun _ => hretraces⟩,
        fun hbeyond => absurd hbeyond (Nat.not_lt_of_le hwithin)⟩
    · have hrefused : ∃ r, s.writeResume (-n) = some r ∧ Refused r := by
        by_cases hfits : n < 2 ^ 28
        · exact h.writeResume_refused hfits (Nat.lt_of_not_le hwithin)
        · exact writeResume_invalid h.none h.idle (resumeStore_long (Nat.le_of_not_lt hfits))
      obtain ⟨r, hwrite, hr⟩ := hrefused
      exact ⟨r, hwrite, ⟨fun hretraces => absurd hretraces hr.not_retraces,
        fun hrange => absurd hrange.2 hwithin⟩, fun _ => hr⟩

/-- The allowance is honoured but for distances within it that need more than the 28 bits
of the waypoint counter. -/
theorem allowance_honoured_iff (h : s.Pausing) (n : Nat) :
    s.Honours n ↔ ¬(2 ^ 28 ≤ n ∧ n ≤ s.maxBacktrackShow) :=
  h.honours_iff n

/-- On a ring of up to 256 MiB the counter holds every distance. -/
theorem allowance_honoured_of_size {ringMb : Nat} {args : ScriptArgs} {as : List Action}
    {out : List Obs} (hexec : System.execute step as (probe ringMb args) = some (out, s))
    (htransfers : ∀ a ∈ as, a.transfers = true) (hsize : s.buf.fifo.size.toNat ≤ 2 ^ 28)
    (h : s.Pausing) (n : Nat) : s.Honours n := by
  obtain ⟨k, p, hindexed⟩ := indexed_run hexec htransfers
  have hne : s.buf.fifo.inIndex ≠ s.buf.player.head := beq_eq_false_iff_ne.mp h.unplayed
  have hunplayed : 0 < enqueued out - p := by
    rw [← hindexed.unplayed]
    apply Nat.pos_of_ne_zero
    intro hzero
    exact hne (sub_eq_zero.mp (BitVec.eq_of_toNat_eq hzero))
  have hmax : s.maxBacktrackShow = _ := hindexed.maxBacktrackLength_toNat s.stepFreq s.rampRate
  rw [hindexed.shares.size_toNat] at hsize
  rw [h.honours_iff]
  omega

private theorem Indexed.hasData {k t p : Nat} (h : Indexed k t p s) (hp : p < t) :
    s.buf.synced.fifo.isEmpty = false := by
  apply beq_eq_false_iff_ne.mpr
  intro heq
  have hempty : s.buf.fifo.inIndex - s.buf.player.head = 0 := sub_eq_zero.mpr heq
  have hunplayed := h.unplayed
  rw [hempty] at hunplayed
  change 0 = t - p at hunplayed
  omega

private theorem Blank.maxBacktrackShow {ph : Player.Phase} {k t p : Nat} (h : Blank ph k t p s) :
    s.maxBacktrackShow = min (t % 2 ^ 64 - (t - p)) (2 ^ k - (t - p)) - 1 := by
  have htail : (cncBacktrackDecelSteps s.stepFreq s.rampRate).toNat = 1 := by
    rw [h.freq, rampRate, h.ramp]
    decide
  have hmax := h.maxBacktrackLength_toNat s.stepFreq s.rampRate
  rw [htail] at hmax
  exact hmax

/-- On a ring of 512 MiB, `2 ^ 28 + 1` bytes are played and one is left. -/
private theorem longPlay :
    ∃ s, Leads (probe 512 (.over fun _ => 0)) s ∧ s.Pausing ∧ s.maxBacktrackShow = 2 ^ 28 := by
  obtain ⟨s₀, hl₀, h₀, hfree₀, hnone₀, hidle₀, hback₀⟩ :=
    blank_ring (show ringMbOrDefault 512 * 2 ^ 20 = 2 ^ 29 by decide) (by decide)
  obtain ⟨s₁, hl₁, h₁, hfree₁, hrun₁, hback₁, hnone₁⟩ :=
    h₀.write (n := 2 ^ 28 + 2) hfree₀ hback₀ (by omega)
  obtain ⟨s₂', s₂, hcheck₂, hstep₂, h₂, hfree₂, hnone₂, hrun₂, hback₂⟩ :=
    h₁.start .run rfl hfree₁ (hnone₁.trans hnone₀) (hrun₁.trans hidle₀) hback₁ (by omega)
      (fun hb => nomatch hb)
  obtain ⟨c₃, hl₃, h₃⟩ := h₂.boot hrun₂ hback₂
  obtain ⟨c₄, hl₄, h₄⟩ :=
    h₃.playForward (n := 2 ^ 28 + 1) hrun₂ hback₂ hfree₂ (by omega) (by omega)
  obtain ⟨hl₅, h₅⟩ := h₄.stop
  have hstart : Feeds s₁ s₂ := (Feeds.step rfl rfl hcheck₂).trans (.step rfl rfl hstep₂)
  have hfed := hl₀.trans (hl₁.trans (hstart.trans (hl₃.trans (hl₄.trans hl₅))))
  refine ⟨_, hfed.leads, ⟨rfl, hfree₂, hnone₂, ?_⟩, ?_⟩
  · exact h₅.toIndexed.hasData (by omega)
  · rw [h₅.maxBacktrackShow]
    omega

/-- The allowance of a long job is itself refused. -/
theorem allowance_honoured_false :
    ¬∀ (ringMb : Nat) (args : ScriptArgs) (as : List Action) (out : List Obs) (s : Playback)
      (n : Nat), System.execute step as (probe ringMb args) = some (out, s) →
      (∀ a ∈ as, a.transfers = true) → s.Pausing → s.Honours n := by
  intro h
  obtain ⟨s, ⟨as, out, htransfers, hexec⟩, hpausing, hmax⟩ := longPlay
  have hhonours := h 512 _ as out s (2 ^ 28) hexec htransfers hpausing
  rw [hpausing.honours_iff, hmax] at hhonours
  exact hhonours ⟨Nat.le_refl _, Nat.le_refl _⟩

private def shortPlay : List Action :=
  [.setStepFrequency 1000, .setRampRate 500000,
    .writeBegin [0x80, 0, 0] true, .writeCopy .all, .writePublish true,
    .startCheck .run true true, .startCommit .granted, .tick 200, .tick 200, .stop]

theorem allowance_honoured_short :
    ∃ out s, System.execute step shortPlay (probe 1 (.over fun _ => 0)) = some (out, s) ∧
      s.maxBacktrackShow = 1 ∧ (s.Honours 1 ↔ ¬(2 ^ 28 ≤ 1 ∧ 1 ≤ s.maxBacktrackShow)) := by
  have hrun : ((System.execute step shortPlay (probe 1 (.over fun _ => 0))).map fun r =>
      (r.2.running, r.2.writer, r.2.starting, r.2.buf.synced.fifo.isEmpty,
        r.2.maxBacktrackShow)) = some (false, none, none, false, 1) := by decide +kernel
  obtain ⟨⟨out, s⟩, hexec, hseen⟩ := Option.map_eq_some_iff.mp hrun
  simp only [Prod.mk.injEq] at hseen
  obtain ⟨hidle, hfree, hnone, hfull, hmax⟩ := hseen
  exact ⟨out, s, hexec, hmax, allowance_honoured_iff ⟨hidle, hfree, hnone, hfull⟩ 1⟩

end Playback

end Glowforge.Cnc
