import Glowforge.Cnc.Playback

/-! What a step of the playback system can do to the ring, whatever the operation. -/
namespace Glowforge.Cnc.Playback
open Foundation Sdma

def Admits (s : Playback) (count : Nat) : Prop :=
  ¬s.buf.synced.fifo.avail < BitVec.ofNat 32 count + cncBufferGapSize

def Reaches (s : Playback) (o : CncRunOptions) : Prop :=
  o.backward = true → o.numSteps ≠ 0 →
    ¬cncBacktrackMaxSteps s.buf.fifo.size (s.buf.fifo.inIndex - s.buf.synced.fifo.outIndex)
        s.buf.totalBytes (cncBacktrackDecelSteps s.stepFreq s.rampRate) < o.numSteps.zeroExtend 32

/-- The bytes a copy leaves in the ring when it fails. -/
def spilled (s : Playback) : Action → List Byte
  | .writeCopy outcome =>
      match s.writer, outcome with
      | some ⟨data, _⟩, .all =>
          let len := min data.length s.buf.fifo.avail.toNat
          if len = data.length then [] else data.take len
      | some ⟨data, _⟩, .fault copied spill => data.take copied ++ spill
      | none, _ => []
  | _ => []

/-- The part of a step that shows in the ring, its engine and the state. -/
inductive Effect (s : Playback) (a : Action) : List Obs → Playback → Prop where
  | look {buf : Pulsebuf} {obs : List Obs} (freq rate : Word)
      (hbuf : buf = s.buf ∨ buf = s.buf.synced) (hobs : obs = [] ∨ ∃ e, obs = [.failed e]) :
      Effect s a obs { s with buf := buf, stepFreq := freq, rampStepFreqDelta := rate }
  | reserve (data : List Byte) (hfree : s.writer = none) (hlen : data.length < 2 ^ 32)
      (hahead : (s.running && s.runningBackward) = false) (hroom : s.Admits data.length) :
      Effect s a [] { s with buf := s.buf.synced, writer := some ⟨data, false⟩ }
  | copy {c : Config Label} (data : List Byte) (hwriter : s.writer = some ⟨data, false⟩)
      (hfit : data.length ≤ s.buf.fifo.avail.toNat) (hc : c = (s.buf.store data).engine) :
      Effect s a [.queued data] { s with
        buf := { s.buf with
          fifo := { s.buf.fifo with
            inIndex := s.buf.fifo.inIndex + BitVec.ofNat 32 data.length }
          totalBytes := s.buf.totalBytes + BitVec.ofNat 64 data.length
          engine := c }
        writer := some ⟨data, true⟩ }
  | rollback {data : List Byte} {c : Config Label} (bs : List Byte) (e : Errno)
      (hwriter : s.writer = some ⟨data, false⟩) (hfit : bs.length ≤ s.buf.fifo.avail.toNat)
      (hc : c = (s.buf.store bs).engine) (hspill : bs = s.spilled a) :
      Effect s a [.failed e] { s with buf := { s.buf with engine := c }, writer := none }
  | publish {c : Config Label} (data : List Byte) (hwriter : s.writer = some ⟨data, true⟩)
      (hc : c = s.buf.publishTail.engine) :
      Effect s a [.accepted data] { s with buf := { s.buf with engine := c }, writer := none }
  | unpublished {data : List Byte} (ha : a = .writePublish false)
      (hwriter : s.writer = some ⟨data, true⟩) :
      Effect s a [.failed .ESDMA] { s with writer := none }
  | check {call : StartCall} {fetch verify : Bool} (o : CncRunOptions) (hidle : s.running = false)
      (hfree : s.starting = none) (ha : a = .startCheck call fetch verify)
      (hcall : call.options = .ok o) :
      Effect s a [] { s with buf := s.buf.synced, starting := some o }
  | giveUp {buf : Pulsebuf} {o : CncRunOptions} (e : Errno) (hbuf : buf = s.buf ∨ buf = s.buf.synced)
      (hstarting : s.starting = some o) (hfree : s.writer = none) :
      Effect s a [.failed e] { s with buf := buf, starting := none }
  | abandon {buf : Pulsebuf} {c : Config Label} (o : CncRunOptions) (e : Errno)
      (hbuf : buf = s.buf ∨ buf = s.buf.synced) (hstarting : s.starting = some o)
      (hfree : s.writer = none)
      (hc : c = buf.setRegs o ∨ c = buf.setSomeRegs o) :
      Effect s a [.failed e] { s with buf := { buf with engine := c }, starting := none }
  | commit {buf : Pulsebuf} {c : Config Label} (o : CncRunOptions)
      (hbuf : buf = s.buf ∨ buf = s.buf.synced) (hstarting : s.starting = some o)
      (hfree : s.writer = none) (hidle : s.running = false) (hreach : s.Reaches o)
      (hc : c = buf.setRegs o) :
      Effect s a [.started o.backward] { s with
        buf := { buf with engine := c }
        starting := none
        running := true
        runningBackward := o.backward }
  | tick {fuel : Nat} {es : List Event} {c : Config Label} (ha : a = .tick fuel)
      (hrun : s.running = true)
      (hexec : Engine.exec script.step fuel s.buf.engine = some (es, c)) :
      Effect s a [.played es] { s with buf := { s.buf with engine := c } }
  | stop : Effect s a [] { s with running := false, runningBackward := false }
  | wipe {c : Config Label} (data position : Bool) (hidle : s.running = false)
      (hfree : s.writer = none) (hc : c = s.buf.engine.clear data position) :
      Effect s a (if data then [.emptied, .cleared] else []) { s with
        buf := { s.buf.forget data with engine := c } }
  | wipeFailed (data : Bool) (e : Errno) (hidle : s.running = false) (hfree : s.writer = none)
      (ha : data = true → ∃ position, a = .clear true position false) :
      Effect s a ((if data then [.emptied] else []) ++ [.failed e]) { s with buf := s.buf.forget data }

theorem syncHead_cases (b : Pulsebuf) (fetch : Bool) :
    (b.syncHead fetch).2 = b ∨ (b.syncHead fetch).2 = b.synced := by
  cases fetch
  · exact .inl rfl
  · exact .inr rfl

theorem writeBegin_effect {s : Playback} {a : Action} {data : List Byte} {fetch : Bool} (hfree : s.writer = none)
    (hlen : data.length < 2 ^ 32) :
    Effect s a (s.writeBegin data fetch).1 (s.writeBegin data fetch).2 := by
  unfold writeBegin Pulsebuf.addUserDataBegin Pulsebuf.syncHead
  by_cases hback : (s.running && s.runningBackward) = true
  · rw [if_pos hback]
    exact .look _ _ (.inl rfl) (.inr ⟨_, rfl⟩)
  · rw [if_neg hback]
    cases fetch with
    | false => exact .look _ _ (.inl rfl) (.inr ⟨_, rfl⟩)
    | true =>
        by_cases hroom : s.buf.synced.fifo.avail < BitVec.ofNat 32 data.length + cncBufferGapSize
        · simp only [if_true, if_pos hroom]
          exact .look _ _ (.inr rfl) (.inr ⟨_, rfl⟩)
        · simp only [if_true, if_neg hroom]
          exact .reserve data hfree hlen (Bool.eq_false_iff.mpr hback) hroom

private theorem rollback_effect {s : Playback} {a : Action} {data : List Byte} (bs : List Byte) (n : Word)
    (e : Errno) (hwriter : s.writer = some ⟨data, false⟩)
    (hfit : bs.length ≤ s.buf.fifo.avail.toNat) (hspill : bs = s.spilled a) :
    Effect s a [.failed e] { s with
      buf := ((s.buf.store bs).setIn (s.buf.fifo.inIndex + n)).setIn (s.buf.fifo.inIndex + n - n)
      writer := none } := by
  have hbuf : ((s.buf.store bs).setIn (s.buf.fifo.inIndex + n)).setIn (s.buf.fifo.inIndex + n - n) =
      { s.buf with engine := (s.buf.store bs).engine } := by
    rw [BitVec.add_sub_cancel]
    rfl
  rw [hbuf]
  exact .rollback bs e hwriter hfit rfl hspill

theorem writeCopy_effect {s : Playback} {data : List Byte} {outcome : CopyOutcome}
    (hwriter : s.writer = some ⟨data, false⟩) (hfits : s.CopyFits data outcome) :
    Effect s (.writeCopy outcome) (s.writeCopy data outcome).1 (s.writeCopy data outcome).2 := by
  cases outcome with
  | all =>
      unfold writeCopy Pulsebuf.addUserDataCopy
      by_cases hlen : min data.length s.buf.fifo.avail.toNat = data.length
      · have hfit : data.length ≤ s.buf.fifo.avail.toNat := by omega
        simp only [hlen, ne_eq, not_true_eq_false, if_false, List.take_length]
        exact .copy data hwriter hfit rfl
      · simp only [ne_eq, hlen, not_false_eq_true, if_true]
        apply rollback_effect _ _ _ hwriter
        · rw [List.length_take]
          omega
        · simp only [spilled, hwriter, if_neg hlen]
  | fault copied spill =>
      have hfit : copied + spill.length ≤ min data.length s.buf.fifo.avail.toNat := hfits
      apply rollback_effect _ _ _ hwriter
      · rw [List.length_append, List.length_take]
        omega
      · simp only [spilled, hwriter]

theorem writePublish_effect {s : Playback} {data : List Byte} {load : Bool}
    (hwriter : s.writer = some ⟨data, true⟩) :
    Effect s (.writePublish load) (s.writePublish data load).1 (s.writePublish data load).2 := by
  unfold writePublish Pulsebuf.addUserDataPublish
  cases load with
  | false => exact .unpublished rfl hwriter
  | true => exact .publish data hwriter rfl

theorem isEmpty_cases (b : Pulsebuf) (fetch : Bool) :
    b.isEmpty fetch = (true, b) ∨ b.isEmpty fetch = (b.synced.fifo.isEmpty, b.synced) := by
  cases fetch
  · exact .inl rfl
  · exact .inr rfl

private theorem maxBacktrackLength_cases (b : Pulsebuf) (fetch : Bool) (freq rate : Word) :
    b.maxBacktrackLength fetch freq rate = (0, b) ∨
      b.maxBacktrackLength fetch freq rate =
        (cncBacktrackMaxSteps b.fifo.size (b.fifo.inIndex - b.synced.fifo.outIndex) b.totalBytes
          (cncBacktrackDecelSteps freq rate), b.synced) := by
  cases fetch
  · exact .inl rfl
  · exact .inr rfl

theorem startCheck_effect {s : Playback} {call : StartCall} {o : CncRunOptions}
    {fetch verify : Bool} (hfree : s.starting = none) (hcall : call.options = .ok o) :
    Effect s (.startCheck call fetch verify) (s.startCheck o fetch verify).1
      (s.startCheck o fetch verify).2 := by
  unfold startCheck
  by_cases hrun : s.running = true
  · rw [if_pos hrun]
    exact .look _ _ (.inl rfl) (.inr ⟨_, rfl⟩)
  · rw [if_neg hrun]
    have hidle := Bool.eq_false_iff.mpr hrun
    rcases isEmpty_cases s.buf fetch with h | h <;> rw [h]
    · exact .look _ _ (.inl rfl) (.inr ⟨_, rfl⟩)
    · cases s.buf.synced.fifo.isEmpty with
      | true => exact .look _ _ (.inr rfl) (.inr ⟨_, rfl⟩)
      | false =>
          cases verify with
          | false => exact .look _ _ (.inr rfl) (.inr ⟨_, rfl⟩)
          | true => exact .check o hidle hfree rfl hcall

private theorem startRest_effect {s : Playback} {a : Action} {o : CncRunOptions} {w : StartOutcome}
    {buf : Pulsebuf} (hbuf : buf = s.buf ∨ buf = s.buf.synced) (hstarting : s.starting = some o)
    (hfree : s.writer = none) (hreach : s.Reaches o) {r : List Obs × Playback}
    (hr : r = (
      let s := { s with buf := buf, starting := none }
      if !w.setRegs then ([.failed .ESDMA], s)
      else if !w.setInhibit then
        ([.failed .ESDMA], { s with buf := { s.buf with engine := s.buf.setSomeRegs o } })
      else
        let s := { s with buf := { s.buf with engine := s.buf.setRegs o } }
        if s.running || !w.admitted then ([.failed .EPERM], s)
        else ([.started o.backward], { s with running := true, runningBackward := o.backward }))) :
    Effect s a r.1 r.2 := by
  subst hr
  cases w.setRegs with
  | false => exact .giveUp _ hbuf hstarting hfree
  | true =>
      cases w.setInhibit with
      | false => exact .abandon o _ hbuf hstarting hfree (.inr rfl)
      | true =>
          by_cases hbar : (s.running || !w.admitted) = true
          · simp only [hbar, Bool.not_true, Bool.false_eq_true, if_false, if_true]
            exact .abandon o _ hbuf hstarting hfree (.inl rfl)
          · have hidle := (Bool.or_eq_false_iff.mp (Bool.eq_false_iff.mpr hbar)).1
            simp only [hbar, Bool.not_true, Bool.false_eq_true, if_false]
            exact .commit o hbuf hstarting hfree hidle hreach rfl

theorem zeroExtend_pos {n : BitVec 28} (h : n ≠ 0) : (0 : Word) < n.zeroExtend 32 := by
  have hpos : 0 < n.toNat := Nat.pos_of_ne_zero fun hz => h (BitVec.eq_of_toNat_eq hz)
  have hlt := n.isLt
  rw [BitVec.lt_def, BitVec.toNat_setWidth, Nat.mod_eq_of_lt (by omega)]
  exact hpos

theorem startCommit_effect {s : Playback} {a : Action} {o : CncRunOptions} {w : StartOutcome}
    (hstarting : s.starting = some o) (hfree : s.writer = none) :
    Effect s a (s.startCommit o w).1 (s.startCommit o w).2 := by
  cases hback : o.backward with
  | false =>
      apply startRest_effect (w := w) (.inl rfl) hstarting hfree
      · intro hb
        simp [hback] at hb
      · simp [startCommit, hback]
  | true =>
      rcases maxBacktrackLength_cases s.buf w.syncMax s.stepFreq s.rampRate with h | h
      · by_cases hshort : (0 : Word) < o.numSteps.zeroExtend 32
        · simp only [startCommit, hback, if_true, h, Bool.true_and, decide_eq_true hshort]
          exact .giveUp _ (.inl rfl) hstarting hfree
        · apply startRest_effect (w := w) (.inl rfl) hstarting hfree
          · intro _ hne
            exact absurd (zeroExtend_pos hne) hshort
          · simp only [startCommit, hback, if_true, h, Bool.true_and, decide_eq_false hshort]
            simp
      · by_cases hshort : cncBacktrackMaxSteps s.buf.fifo.size
            (s.buf.fifo.inIndex - s.buf.synced.fifo.outIndex) s.buf.totalBytes
            (cncBacktrackDecelSteps s.stepFreq s.rampRate) < o.numSteps.zeroExtend 32
        · simp only [startCommit, hback, if_true, h, Bool.true_and, decide_eq_true hshort]
          exact .giveUp _ (.inr rfl) hstarting hfree
        · apply startRest_effect (w := w) (.inr rfl) hstarting hfree
          · intro _ _
            exact hshort
          · simp only [startCommit, hback, if_true, h, Bool.true_and, decide_eq_false hshort]
            simp

theorem clear_effect {s : Playback} {data position load : Bool} (hidle : s.running = false)
    (hfree : s.writer = none) :
    Effect s (.clear data position load) (s.clear data position load).1 (s.clear data position load).2 := by
  unfold clear Pulsebuf.clear
  by_cases hnone : (!data && !position) = true
  · obtain ⟨hdata, hposition⟩ : data = false ∧ position = false := by simpa using hnone
    subst hdata hposition
    exact .wipeFailed false _ hidle hfree fun h => nomatch h
  · cases load with
    | false =>
        simp only [hnone, Bool.false_eq_true, if_false]
        refine .wipeFailed data _ hidle hfree ?_
        rintro rfl
        exact ⟨position, rfl⟩
    | true =>
        have hengine : (s.buf.forget data).engine = s.buf.engine := by
          cases data <;> rfl
        simp only [hnone, Bool.false_eq_true, if_false, if_true, hengine]
        cases data
        · exact .wipe false position hidle hfree rfl
        · exact .wipe true position hidle hfree rfl

theorem numSteps_ne_zero_of_options {call : StartCall} {o : CncRunOptions}
    (h : call.options = .ok o) (hback : o.backward = true) : o.numSteps ≠ 0 := by
  cases call with
  | run =>
      cases h
      cases hback
  | resume rawValue =>
      simp only [StartCall.options, resumeStore] at h
      by_cases hrange : rawValue < -2147483648 ∨ rawValue > 4294967295
      · rw [if_pos hrange] at h
        cases h
      rw [if_neg hrange] at h
      generalize (BitVec.ofInt 32 rawValue).toInt = value at h
      by_cases hneg : value < 0
      · simp only [if_pos hneg] at h
        by_cases hmag : -value ≥ 2 ^ 28
        · rw [if_pos hmag] at h
          cases h
        rw [if_neg hmag] at h
        have hsmall : (BitVec.ofInt 32 (-value)).toNat = (-value).toNat := by
          rw [BitVec.toNat_ofInt, Int.emod_eq_of_lt (by omega) (by omega)]
        unfold cncBacktrack at h
        split at h
        · cases h
        · cases h
          intro hz
          have hzero : (-value).toNat % 2 ^ 28 = 0 := by
            rw [← hsmall, ← BitVec.toNat_setWidth]
            exact congrArg BitVec.toNat hz
          omega
      · simp only [if_neg hneg] at h
        by_cases hmag : value ≥ 2 ^ 28
        · rw [if_pos hmag] at h
          cases h
        rw [if_neg hmag] at h
        cases h
        cases hback

theorem step_effect {s : Playback} {a : Action} {r : List Obs × Playback} (h : s.step a = some r) :
    Effect s a r.1 r.2 := by
  cases a with
  | writeBegin data fetch =>
      obtain ⟨⟨hfree, hlen⟩, hr⟩ := Option.ite_none_right_eq_some.mp h
      cases hr
      exact writeBegin_effect hfree hlen
  | writeCopy outcome =>
      simp only [step] at h
      split at h
      · rename_i data hwriter
        obtain ⟨hfits, hr⟩ := Option.ite_none_right_eq_some.mp h
        cases hr
        exact writeCopy_effect hwriter hfits
      · cases h
  | writePublish load =>
      simp only [step] at h
      split at h
      · rename_i data hwriter
        cases h
        exact writePublish_effect hwriter
      · cases h
  | startCheck call fetch verify =>
      obtain ⟨hfree, hr⟩ := Option.ite_none_right_eq_some.mp h
      cases hcall : call.options with
      | error e =>
          rw [hcall] at hr
          cases hr
          exact .look _ _ (.inl rfl) (.inr ⟨_, rfl⟩)
      | ok o =>
          rw [hcall] at hr
          cases hr
          exact startCheck_effect hfree hcall
  | startCommit outcome =>
      simp only [step] at h
      split at h
      · rename_i o hfree hstarting
        cases h
        exact startCommit_effect hstarting hfree
      · cases h
  | tick fuel =>
      obtain ⟨hrun, hr⟩ := Option.ite_none_right_eq_some.mp h
      obtain ⟨⟨es, c⟩, hexec, rfl⟩ := Option.map_eq_some_iff.mp hr
      exact .tick rfl hrun hexec
  | stop =>
      cases h
      exact .stop
  | clear data position load =>
      obtain ⟨hfree, hr⟩ := Option.ite_none_right_eq_some.mp h
      cases hrun : s.running with
      | true =>
          rw [hrun] at hr
          cases hr
          exact .look _ _ (.inl rfl) (.inr ⟨_, rfl⟩)
      | false =>
          rw [hrun] at hr
          cases hr
          exact clear_effect hrun hfree
  | syncHead fetch =>
      cases h
      exact .look _ _ (syncHead_cases s.buf fetch) (.inl rfl)
  | setStepFrequency freq =>
      simp only [step] at h
      split at h
      · cases h
        exact .look _ _ (.inl rfl) (.inr ⟨_, rfl⟩)
      · split at h
        · cases h
          exact .look _ _ (.inl rfl) (.inr ⟨_, rfl⟩)
        · cases h
          exact .look _ _ (.inl rfl) (.inl rfl)
  | setRampRate hzPerS =>
      simp only [step] at h
      split at h
      · cases h
        exact .look _ _ (.inl rfl) (.inr ⟨_, rfl⟩)
      · split at h
        · cases h
          exact .look _ _ (.inl rfl) (.inr ⟨_, rfl⟩)
        · cases h
          exact .look _ _ (.inl rfl) (.inl rfl)

theorem Effect.started {s s' : Playback} {a : Action} {obs : List Obs} {b : Bool}
    (he : Effect s a obs s') (hb : .started b ∈ obs) :
    ∃ o buf, (buf = s.buf ∨ buf = s.buf.synced) ∧ s.starting = some o ∧ o.backward = b ∧
      s.writer = none ∧ s.running = false ∧ s.Reaches o ∧
      s' = { s with
        buf := { buf with engine := buf.setRegs o }
        starting := none
        running := true
        runningBackward := b } := by
  cases he with
  | commit o hbuf hstarting hfree hidle hreach hc =>
      cases List.mem_singleton.mp hb
      subst hc
      exact ⟨o, _, hbuf, hstarting, rfl, hfree, hidle, hreach, rfl⟩
  | look freq rate hbuf hobs => rcases hobs with rfl | ⟨e, rfl⟩ <;> simp at hb
  | wipe data position _ _ _ => cases data <;> simp at hb
  | wipeFailed data e _ _ _ => cases data <;> simp at hb
  | _ => simp at hb

end Glowforge.Cnc.Playback
