import Glowforge.Sdma.Blocks

/-! A timer tick of the script and a tick of the player are the same thing: every
turn of the engine from a wait is a player tick, and every player tick is a turn. -/
namespace Glowforge.Sdma
open Foundation Engine Player

def Player.Phase.Waits : Phase → Config Label → Prop
  | .boot, c => c = script.goto .start c.m
  | .ready, c => c.m.player.live ∧ c.m.player.again = false ∧
      (c = ⟨.start, [], c.m⟩ ∨
        c = ⟨.endbyteDone, [.btsti .r1 0, .bt .fifoConsumeByte], c.m⟩)
  | .parked, c => c.m.player.live ∧ c = ⟨.alldoneWait, [.btsti .r1 0, .bt .restartRelay], c.m⟩

attribute [local simp] Machine.get Machine.set Machine.setFlagged Instr.exec Program.goto
  Program.step exec script Label.block Label.next

theorem Player.live_settle {p : Player} (h : p.live) : p.settle.live := by
  unfold live at h ⊢
  simp [settle, h]

theorem Player.again_settle (p : Player) : p.settle.again = false := by
  simp [settle, again]

theorem Player.live_endbyte {p : Player} (h : p.live) : p.endbyte.2.live := by
  unfold live at h ⊢
  unfold endbyte
  simp only
  split
  · exact h
  · split <;> exact h

theorem Player.live_consume {p : Player} (h : p.live) : p.consume.2.live :=
  live_endbyte (actOn_live h)

theorem Player.live_park {p : Player} (h : p.live) : p.park.2.live := by
  unfold live at h ⊢
  unfold park
  simp only
  split
  · split <;> exact h
  · exact h

/-! One round of the engine's loop: park, play a last byte, or play a byte and go on. -/

private theorem alldoneWait_exec (m : Machine) :
    exec script.step 1 (script.goto .alldoneWait m) =
      some ([], ⟨.alldoneWait, [.btsti .r1 0, .bt .restartRelay], m⟩) := by
  simp

private theorem endbyteDone_exec (m : Machine) (h : bit m.r1 2 = false) :
    exec script.step 4 (script.goto .endbyteDone m) =
      some ([], ⟨.endbyteDone, [.btsti .r1 0, .bt .fifoConsumeByte],
        { m with r1 := lower m.r1 2, t := false }⟩) := by
  simp [h]

private theorem endbyteDone_runs (m : Machine) (h : bit m.r1 2 = true) :
    Runs script.step (fun _ => false) 3 (script.goto .endbyteDone m) []
      (script.goto .fifoConsumeByteNoIflagClear { m with r1 := lower m.r1 2, t := true }) :=
  runs_of_advance 3 (by decide) (by simp [advance, h])

theorem exec_idle {m : Machine} (hidle : m.player.idle) (hlive : m.player.live) :
    ∃ m', exec script.step 41 (script.goto .fifoConsumeByteNoIflagClear m) =
        some (m.player.park.1, ⟨.alldoneWait, [.btsti .r1 0, .bt .restartRelay], m'⟩) ∧
      m'.player = m.player.park.2 := by
  obtain ⟨m', hruns, hp⟩ := park_carries m ⟨hidle, hlive⟩
  refine ⟨m', ?_, hp⟩
  have h := exec_of_runs hruns (alldoneWait_exec m')
  rwa [List.append_nil] at h

theorem exec_last {m : Machine} (hbusy : ¬m.player.idle) (hlive : m.player.live)
    (hlast : m.player.consume.2.again = false) :
    ∃ m', exec script.step 154 (script.goto .fifoConsumeByteNoIflagClear m) =
        some (m.player.consume.1,
          ⟨.endbyteDone, [.btsti .r1 0, .bt .fifoConsumeByte], m'⟩) ∧
      m'.player = m.player.consume.2.settle := by
  obtain ⟨m', hruns, hp⟩ := consume_carries m ⟨hbusy, hlive⟩
  rw [← hp] at hlast ⊢
  have h := exec_of_runs hruns (endbyteDone_exec m' hlast)
  rw [List.append_nil] at h
  exact ⟨_, h, rfl⟩

theorem runs_more {m : Machine} (hbusy : ¬m.player.idle) (hlive : m.player.live)
    (hmore : m.player.consume.2.again = true) :
    ∃ m', Runs script.step (fun _ => false) 153 (script.goto .fifoConsumeByteNoIflagClear m)
        m.player.consume.1 (script.goto .fifoConsumeByteNoIflagClear m') ∧
      m'.player = m.player.consume.2.settle := by
  obtain ⟨m', hruns, hp⟩ := consume_carries m ⟨hbusy, hlive⟩
  rw [← hp] at hmore ⊢
  have h := hruns.unstopped.trans (endbyteDone_runs m' hmore)
  rw [List.append_nil] at h
  exact ⟨_, h, rfl⟩

/-! Whole ticks. -/

theorem exec_of_drains {n : Nat} {p p' : Player} {es : List Event} {ph : Phase}
    (h : Drains n p es ph p') {m : Machine} (hp : m.player = p) (hlive : p.live) :
    ∃ c', exec script.step (153 * n + 154) (script.goto .fifoConsumeByteNoIflagClear m) =
        some (es, c') ∧ ph.Waits c' ∧ c'.m.player = p' := by
  induction h generalizing m with
  | park hidle =>
      subst hp
      obtain ⟨m', hexec, hp'⟩ := exec_idle hidle hlive
      refine ⟨_, exec_mono hexec (by decide), ⟨?_, rfl⟩, hp'⟩
      rw [hp']
      exact live_park hlive
  | last hbusy hlast =>
      subst hp
      obtain ⟨m', hexec, hp'⟩ := exec_last hbusy hlive hlast
      refine ⟨_, exec_mono hexec (by decide), ⟨?_, ?_, .inr rfl⟩, hp'⟩
      · rw [hp']
        exact live_settle (live_consume hlive)
      · rw [hp']
        exact again_settle _
  | @more n p p' es ph hbusy hmore rest ih =>
      subst hp
      obtain ⟨m', hruns, hp'⟩ := runs_more hbusy hlive hmore
      obtain ⟨c', hexec, hw, hc'⟩ := ih hp' (live_settle (live_consume hlive))
      refine ⟨c', exec_mono (exec_of_runs hruns hexec) (by omega), hw, hc'⟩

theorem drains_of_exec {fuel : Nat} {m : Machine} {es : List Event} {c' : Config Label}
    (hlive : m.player.live)
    (h : exec script.step fuel (script.goto .fifoConsumeByteNoIflagClear m) = some (es, c')) :
    ∃ n ph, Drains n m.player es ph c'.m.player ∧ ph.Waits c' := by
  -- each byte emits its read, so the events left to produce shrink
  induction hlen : es.length using Nat.strong_induction_on generalizing m es with
  | h len ih =>
      subst hlen
      by_cases hidle : m.player.idle
      · obtain ⟨m', hexec, hp'⟩ := exec_idle hidle hlive
        cases exec_unique hexec h
        refine ⟨0, .parked, ?_, ?_, rfl⟩
        · simp only [hp']
          exact .park hidle
        · simp only [hp']
          exact live_park hlive
      · cases hagain : m.player.consume.2.again with
        | false =>
            obtain ⟨m', hexec, hp'⟩ := exec_last hidle hlive hagain
            cases exec_unique hexec h
            refine ⟨1, .ready, ?_, ?_, ?_, .inr rfl⟩
            · simp only [hp']
              exact .last hidle hagain
            · simp only [hp']
              exact live_settle (live_consume hlive)
            · simp only [hp']
              exact again_settle _
        | true =>
            obtain ⟨m', hruns, hp'⟩ := runs_more hidle hlive hagain
            obtain ⟨⟨es', c''⟩, hrest, heq⟩ := exec_after_runs hruns h
            cases heq
            have hlive' : m'.player.live := by
              rw [hp']
              exact live_settle (live_consume hlive)
            have hshort : es'.length < (m.player.consume.1 ++ es').length := by
              rw [List.length_append, consume]
              simp only [List.length_cons]
              omega
            obtain ⟨n, ph, hd, hw⟩ := ih es'.length hshort hlive' hrest rfl
            rw [hp'] at hd
            exact ⟨n + 1, ph, .more hidle hagain hd, hw⟩

private theorem start_exec (m : Machine) :
    exec script.step 4 (script.goto .start m) =
      some ([.write m.pda 1], ⟨.start, [], { m with r1 := 1, r3 := 0 }⟩) := by
  simp

private theorem alldoneWait_resume_runs (m : Machine) (hlive : m.player.live) :
    Runs script.step byteDone 4 ⟨.alldoneWait, [.btsti .r1 0, .bt .restartRelay], m⟩ []
      (script.goto .start { m with t := true }) := by
  simp only [live, Machine.player] at hlive
  exact runs_of_advance 4 (by decide) (by simp [advance, byteDone, hlive])

theorem ready_runs {c : Config Label} (hw : Phase.ready.Waits c) :
    ∃ m', Runs script.step byteDone 4 c [.write c.m.pda c.m.r1]
        (script.goto .fifoConsumeByteNoIflagClear m') ∧ m'.player = c.m.player := by
  obtain ⟨hlive, -, hstart | hbyte⟩ := hw
  · refine ⟨c.m, ?_, rfl⟩
    rw [hstart]
    exact runs_of_advance 3 (by decide) (by simp [advance, byteDone])
  · refine ⟨{ c.m with t := true }, ?_, rfl⟩
    simp only [live, Machine.player] at hlive
    rw [hbyte]
    exact runs_of_advance 4 (by decide) (by simp [advance, byteDone, hlive])

private theorem restart_exec {ph : Phase} {c : Config Label} (hw : ph.Waits c)
    (hph : ph ≠ .ready) :
    ∃ m', exec script.step 8 c = some ([.write c.m.pda 1], ⟨.start, [], m'⟩) ∧
      m'.player = { c.m.player with flags := 1, pins := 0 } := by
  cases ph with
  | boot =>
      refine ⟨{ c.m with r1 := 1, r3 := 0 }, ?_, rfl⟩
      rw [hw]
      exact exec_mono (start_exec c.m) (by decide)
  | ready => contradiction
  | parked =>
      obtain ⟨hlive, hc⟩ := hw
      refine ⟨{ c.m with r1 := 1, r3 := 0, t := true }, ?_, rfl⟩
      rw [hc]
      exact exec_of_runs (alldoneWait_resume_runs c.m hlive) (start_exec _)

private theorem waits_restart {m : Machine} {p : Player}
    (h : m.player = { p with flags := 1, pins := 0 }) : Phase.ready.Waits ⟨.start, [], m⟩ := by
  have hlive : bit (1 : Word) 0 = true := by decide
  have hagain : bit (1 : Word) 2 = false := by decide
  refine ⟨?_, ?_, .inl rfl⟩
  · simp only [h]
    exact hlive
  · simp only [h]
    exact hagain

/-- A turn of the engine from a wait is a tick of the player. -/
theorem tick_of_exec {fuel : Nat} {ph : Phase} {c c' : Config Label} {es : List Event}
    (hw : ph.Waits c) (h : exec script.step fuel c = some (es, c')) :
    ∃ n ph', Tick n ph c.m.player es ph' c'.m.player ∧ ph'.Waits c' := by
  by_cases hph : ph = .ready
  · subst hph
    obtain ⟨m', hruns, hp⟩ := ready_runs hw
    obtain ⟨⟨es', c''⟩, hrest, heq⟩ := exec_after_runs hruns h
    cases heq
    have hlive : m'.player.live := by
      rw [hp]
      exact hw.1
    obtain ⟨n, ph', hd, hw'⟩ := drains_of_exec hlive hrest
    rw [hp] at hd
    exact ⟨n, ph', .play hd, hw'⟩
  · obtain ⟨m', hexec, hp⟩ := restart_exec hw hph
    cases exec_unique hexec h
    refine ⟨0, .ready, ?_, waits_restart hp⟩
    simp only [hp]
    exact .restart hph

theorem exec_of_tick {n : Nat} {ph ph' : Phase} {p p' : Player} {es : List Event}
    (h : Tick n ph p es ph' p') {c : Config Label} (hw : ph.Waits c) (hp : c.m.player = p) :
    ∃ c', exec script.step (153 * n + 158) c = some (es, c') ∧ ph'.Waits c' ∧
      c'.m.player = p' := by
  cases h with
  | restart hph =>
      subst hp
      obtain ⟨m', hexec, hp'⟩ := restart_exec hw hph
      exact ⟨_, exec_mono hexec (by decide), waits_restart hp', hp'⟩
  | play hdrains =>
      subst hp
      obtain ⟨m', hruns, hp'⟩ := ready_runs hw
      obtain ⟨c', hexec, hw', hc'⟩ := exec_of_drains hdrains hp' hw.1
      refine ⟨c', ?_, hw', hc'⟩
      exact exec_mono (exec_of_runs hruns hexec) (by omega)

end Glowforge.Sdma
