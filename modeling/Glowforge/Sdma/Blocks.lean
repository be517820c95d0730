import Glowforge.Sdma.Player

/-! What each block of the pulse script does to the player's state, and from that:
between two bytes the script computes the player. -/
namespace Glowforge.Sdma
open Foundation Engine

def byteDone (c : Config Label) : Bool :=
  c.here == .endbyteDone && c.rest.length == 6

/-- From one label to another, in at most `n` steps and with no byte finished in
between, the script has the effect `f` on every state that satisfies `pre`. -/
def Carries (n : Nat) (l l' : Label) (pre : Player → Prop)
    (f : Player → List Event × Player) : Prop :=
  ∀ m : Machine, pre m.player → ∃ m' : Machine,
    Runs script.step byteDone n (script.goto l m) (f m.player).1 (script.goto l' m') ∧
      m'.player = (f m.player).2

def Player.andThen (f g : Player → List Event × Player) (p : Player) : List Event × Player :=
  ((f p).1 ++ (g (f p).2).1, (g (f p).2).2)

def always (_ : Player) : Prop := True

namespace Carries

variable {n k : Nat} {l l' l'' : Label} {pre pre' : Player → Prop}
  {f g : Player → List Event × Player}

theorem trans (first : Carries n l l' pre f) (second : Carries k l' l'' pre' g)
    (hmid : ∀ p, pre p → pre' (f p).2) :
    Carries (n + k) l l'' pre (Player.andThen f g) := by
  intro m hm
  obtain ⟨m₁, hruns₁, hp₁⟩ := first m hm
  have hpre : pre' m₁.player := by
    rw [hp₁]
    exact hmid m.player hm
  obtain ⟨m₂, hruns₂, hp₂⟩ := second m₁ hpre
  rw [hp₁] at hruns₂ hp₂
  exact ⟨m₂, hruns₁.trans hruns₂, hp₂⟩

theorem weaken (h : Carries n l l' pre f) (hle : n ≤ k) (hpre : ∀ p, pre' p → pre p)
    (heq : ∀ p, pre' p → f p = g p) : Carries k l l' pre' g := by
  intro m hm
  obtain ⟨m', hruns, hp⟩ := h m (hpre _ hm)
  rw [heq _ hm] at hruns hp
  exact ⟨m', hruns.mono hle, hp⟩

theorem strengthen (h : Carries n l l' pre f) (hpre : ∀ p, pre' p → pre p) :
    Carries n l l' pre' f :=
  h.weaken le_rfl hpre (fun _ _ => rfl)

theorem split (q : Player → Prop) (yes : Carries n l l' (fun p => pre p ∧ q p) f)
    (no : Carries n l l' (fun p => pre p ∧ ¬q p) f) : Carries n l l' pre f := by
  intro m hm
  by_cases hq : q m.player
  · exact yes m ⟨hm, hq⟩
  · exact no m ⟨hm, hq⟩

end Carries

attribute [local simp] Machine.get Machine.set Machine.setFlagged Instr.exec Program.goto
  Program.step advance byteDone script Label.block Label.next

private theorem repeatBody_delay (n : Nat) (m : Machine) :
    repeatBody [(Instr.mov .r1 .r1 : Instr Label), .mov .r1 .r1, .mov .r1 .r1] n m = ([], m) := by
  induction n with
  | zero => rfl
  | succ n ih => simpa [repeatBody] using ih

theorem doXDir_carries : Carries 5 .doXDir .doYDir always
    fun p => ([], { p with pins := xDirPin p.data p.pins }) := by
  intro m _
  refine ⟨{ m with r3 := xDirPin m.r2 m.r3, t := bit m.r2 1 }, ?_, rfl⟩
  cases h : bit m.r2 1 with
  | false => exact runs_of_advance 3 (by decide) (by simp [xDirPin, h])
  | true => exact runs_of_advance 5 (by decide) (by simp [xDirPin, h])

theorem doYDir_carries : Carries 7 .doYDir .doZDir always
    fun p => ([], { p with pins := yDirPins p.data p.pins }) := by
  intro m _
  refine ⟨{ m with r3 := yDirPins m.r2 m.r3, t := bit m.r2 3 }, ?_, rfl⟩
  cases h : bit m.r2 3 with
  | false => exact runs_of_advance 4 (by decide) (by simp [yDirPins, h])
  | true => exact runs_of_advance 7 (by decide) (by simp [yDirPins, h])

theorem doZDir_carries : Carries 5 .doZDir .setDir always
    fun p => ([], { p with pins := zDirPin p.data p.pins }) := by
  intro m _
  refine ⟨{ m with r3 := zDirPin m.r2 m.r3, t := bit m.r2 6 }, ?_, rfl⟩
  cases h : bit m.r2 6 with
  | false => exact runs_of_advance 3 (by decide) (by simp [zDirPin, h])
  | true => exact runs_of_advance 5 (by decide) (by simp [zDirPin, h])

theorem setDir_carries : Carries 3 .setDir .doXStep always
    fun p => ([.write p.gpio p.pins], p) := by
  intro m _
  refine ⟨{ m with r0 := 0 }, ?_, rfl⟩
  exact runs_of_advance 3 (by decide) (by simp [repeatBody_delay, Machine.player])

theorem doXStep_carries : Carries 4 .doXStep .doYStep always
    fun p => ([], { p with pins := xStepPin p.data p.pins }) := by
  intro m _
  refine ⟨{ m with r3 := xStepPin m.r2 m.r3, t := bit m.r2 0 }, ?_, rfl⟩
  cases h : bit m.r2 0 with
  | false => exact runs_of_advance 2 (by decide) (by simp [xStepPin, h])
  | true => exact runs_of_advance 4 (by decide) (by simp [xStepPin, h])

theorem doYStep_carries : Carries 5 .doYStep .doZStep always
    fun p => ([], { p with pins := yStepPins p.data p.pins }) := by
  intro m _
  refine ⟨{ m with r3 := yStepPins m.r2 m.r3, t := bit m.r2 2 }, ?_, rfl⟩
  cases h : bit m.r2 2 with
  | false => exact runs_of_advance 2 (by decide) (by simp [yStepPins, h])
  | true => exact runs_of_advance 5 (by decide) (by simp [yStepPins, h])

theorem doZStep_carries : Carries 4 .doZStep .doLaser always
    fun p => ([], { p with pins := zStepPin p.data p.pins }) := by
  intro m _
  refine ⟨{ m with r3 := zStepPin m.r2 m.r3, t := bit m.r2 5 }, ?_, rfl⟩
  cases h : bit m.r2 5 with
  | false => exact runs_of_advance 2 (by decide) (by simp [zStepPin, h])
  | true => exact runs_of_advance 4 (by decide) (by simp [zStepPin, h])

theorem doLaser_carries : Carries 7 .doLaser .setStepAndLaser always
    fun p => ([], { p with pins := laserPins p.data p.pins }) := by
  intro m _
  refine ⟨{ m with r3 := laserPins m.r2 m.r3, t := bit m.r2 4 }, ?_, rfl⟩
  cases h : bit m.r2 4 with
  | false => exact runs_of_advance 4 (by decide) (by simp [laserPins, h])
  | true => exact runs_of_advance 7 (by decide) (by simp [laserPins, h])

theorem setStepAndLaser_carries : Carries 7 .setStepAndLaser .updXPos always
    fun p => ([.write p.gpio (p.pins &&& ~~~p.lock &&& ~~~p.inhibit)],
      { p with pins := p.pins &&& ~~~p.lock &&& ~~~p.inhibit }) := by
  intro m _
  let w := m.r3 &&& ~~~(m.word 18) &&& ~~~(m.word 20)
  refine ⟨{ m with r0 := 0, r3 := w, t := w == 0 }, ?_, rfl⟩
  exact runs_of_advance 7 (by decide) (by simp [repeatBody_delay, Machine.word, Machine.player, w])

/-! The position counters. X counts down when its direction bit is set, Y and Z up. -/

attribute [local simp] Machine.player Machine.word Function.update_apply

private theorem add_neg_one (w : Word) : w + -1 = w - 2 + 1 := by bv_omega

theorem updXPos_carries : Carries 10 .updXPos .updYPos always
    fun p => ([], { p with x := p.x + xDelta p.data }) := by
  intro m _
  cases hstep : bit m.r2 0 with
  | false =>
      refine ⟨{ m with t := false }, runs_of_advance 2 (by decide) ?_, ?_⟩
      · simp [hstep]
      · simp [xDelta, hstep]
  | true =>
      cases hminus : bit m.r2 1 with
      | false =>
          let v := m.word 24 + 1
          refine ⟨{ m.setWord 24 v with r0 := v, t := v == 0 },
            runs_of_advance 8 (by decide) ?_, ?_⟩
          · simp [hstep, hminus, Machine.setWord, v]
          · simp [xDelta, hstep, hminus, Machine.setWord, v]
      | true =>
          let v := m.word 24 - 2 + 1
          refine ⟨{ m.setWord 24 v with r0 := v, t := v == 0 },
            runs_of_advance 10 (by decide) ?_, ?_⟩
          · simp [hstep, hminus, Machine.setWord, v]
          · have hdelta : xDelta m.r2 = -1 := by simp [xDelta, hstep, hminus]
            simp only [Machine.player, hdelta, add_neg_one]
            simp [Machine.setWord, v]

theorem updYPos_carries : Carries 10 .updYPos .updZPos always
    fun p => ([], { p with y := p.y + yDelta p.data }) := by
  intro m _
  cases hstep : bit m.r2 2 with
  | false =>
      refine ⟨{ m with t := false }, runs_of_advance 2 (by decide) ?_, ?_⟩
      · simp [hstep]
      · simp [yDelta, hstep]
  | true =>
      cases hplus : bit m.r2 3 with
      | true =>
          let v := m.word 25 + 1
          refine ⟨{ m.setWord 25 v with r0 := v, t := v == 0 },
            runs_of_advance 8 (by decide) ?_, ?_⟩
          · simp [hstep, hplus, Machine.setWord, v]
          · simp [yDelta, hstep, hplus, Machine.setWord, v]
      | false =>
          let v := m.word 25 - 2 + 1
          refine ⟨{ m.setWord 25 v with r0 := v, t := v == 0 },
            runs_of_advance 10 (by decide) ?_, ?_⟩
          · simp [hstep, hplus, Machine.setWord, v]
          · have hdelta : yDelta m.r2 = -1 := by simp [yDelta, hstep, hplus]
            simp only [Machine.player, hdelta, add_neg_one]
            simp [Machine.setWord, v]

theorem updZPos_carries : Carries 10 .updZPos .updPosDone always
    fun p => ([], { p with z := p.z + zDelta p.data }) := by
  intro m _
  cases hstep : bit m.r2 5 with
  | false =>
      refine ⟨{ m with t := false }, runs_of_advance 2 (by decide) ?_, ?_⟩
      · simp [hstep]
      · simp [zDelta, hstep]
  | true =>
      cases hplus : bit m.r2 6 with
      | true =>
          let v := m.word 26 + 1
          refine ⟨{ m.setWord 26 v with r0 := v, t := v == 0 },
            runs_of_advance 8 (by decide) ?_, ?_⟩
          · simp [hstep, hplus, Machine.setWord, v]
          · simp [zDelta, hstep, hplus, Machine.setWord, v]
      | false =>
          let v := m.word 26 - 2 + 1
          refine ⟨{ m.setWord 26 v with r0 := v, t := v == 0 },
            runs_of_advance 10 (by decide) ?_, ?_⟩
          · simp [hstep, hplus, Machine.setWord, v]
          · have hdelta : zDelta m.r2 = -1 := by simp [zDelta, hstep, hplus]
            simp only [Machine.player, hdelta, add_neg_one]
            simp [Machine.setWord, v]

theorem updPosDone_carries : Carries 8 .updPosDone .endbyte always
    fun p => ([.write p.gpio (clearPins p.pins)],
      { p with flags := lower p.flags 1, pins := clearPins p.pins }) := by
  intro m _
  refine ⟨{ m with r1 := lower m.r1 1, r3 := clearPins m.r3 }, ?_, rfl⟩
  exact runs_of_advance 8 (by decide) (by simp [clearPins])

theorem motion_carries : Carries 100 .doXDir .endbyte always fun p => p.motion p.data := by
  have dirs := (doXDir_carries.trans doYDir_carries (fun _ _ => trivial)).trans doZDir_carries
    (fun _ _ => trivial)
  have steps := ((setDir_carries.trans doXStep_carries (fun _ _ => trivial)).trans doYStep_carries
    (fun _ _ => trivial)).trans doZStep_carries (fun _ _ => trivial)
  have laser := doLaser_carries.trans setStepAndLaser_carries (fun _ _ => trivial)
  have pos := ((updXPos_carries.trans updYPos_carries (fun _ _ => trivial)).trans updZPos_carries
    (fun _ _ => trivial)).trans updPosDone_carries (fun _ _ => trivial)
  have all := ((dirs.trans steps (fun _ _ => trivial)).trans laser (fun _ _ => trivial)).trans pos
    (fun _ _ => trivial)
  refine all.weaken (by decide) (fun _ _ => trivial) ?_
  intro p _
  simp only [Player.andThen, Player.motion, dirPins, stepPins, List.nil_append, List.append_nil,
    List.cons_append]

/-! The ends of a byte: power bytes, the counters and the waypoint. -/

/-- Bit 0 of r1 stays set while the script runs; its unconditional jumps test it. -/
def Player.live (p : Player) : Prop := bit p.flags 0 = true

theorem doPower_carries : Carries 15 .doPower .endbyte Player.live fun p => p.power p.data := by
  intro m hlive
  simp only [Player.live, Machine.player] at hlive
  cases hagain : bit m.r1 1 with
  | true =>
      refine ⟨{ m with t := true }, runs_of_advance 2 (by decide) ?_, ?_⟩
      · simp [hagain, Player.power]
      · simp [hagain, Player.power]
  | false =>
      cases hback : bit (m.word 30) 31 with
      | true =>
          refine ⟨{ m with r0 := m.word 30, r1 := raise m.r1 2, t := true },
            runs_of_advance 8 (by decide) ?_, ?_⟩
          · simp only [Machine.word, BitVec.ofNat_eq_ofNat] at hback
            simp [hagain, hback, hlive, Player.power, Player.backward]
          · simp only [Machine.word, BitVec.ofNat_eq_ofNat] at hback
            simp [hagain, hback, Player.power, Player.backward]
      | false =>
          let b := m.r2 &&& 0x7f
          refine ⟨{ m with r0 := m.pda, r1 := raise (raise m.r1 1) 2, r2 := b, t := true },
            runs_of_advance 15 (by decide) ?_, ?_⟩
          · simp only [Machine.word, BitVec.ofNat_eq_ofNat] at hback
            simp [hagain, hback, hlive, Player.power, Player.backward, b]
          · simp only [Machine.word, BitVec.ofNat_eq_ofNat] at hback
            simp [hagain, hback, Player.power, Player.backward, b]

theorem waypointHit_carries : Carries 6 .waypointHit .endbyteDone Player.live
    fun p => ([.notify 3], { p with inhibit := 0 }) := by
  intro m hlive
  simp only [Player.live, Machine.player] at hlive
  refine ⟨{ m.setWord 20 0 with r0 := 0, t := true }, runs_of_advance 5 (by decide) ?_, ?_⟩
  · simp [hlive, Machine.setWord]
  · simp [Machine.setWord]

def Player.count (p : Player) : Player :=
  { p with bytes := p.bytes + p.dir, head := p.head + p.dir, data := p.dir }

private theorem endbyte_disarmed_carries : Carries 10 .endbyte .endbyteDone
    (fun p => p.waypoint = 0) fun p => ([], p.count) := by
  intro m hdisarmed
  simp only [Machine.player, Machine.word, BitVec.ofNat_eq_ofNat] at hdisarmed
  let m' := (m.setWord 27 (m.word 27 + m.word 30)).setWord 28 (m.word 28 + m.word 30)
  refine ⟨{ m' with r0 := 0, r2 := m.word 30, t := true }, runs_of_advance 10 (by decide) ?_, ?_⟩
  · simp [hdisarmed, Machine.setWord, m']
  · simp [Machine.setWord, Player.count, m']

private theorem endbyte_last_carries : Carries 13 .endbyte .waypointHit
    (fun p => p.waypoint = 1) fun p => ([], { p.count with waypoint := 0 }) := by
  intro m hlast
  simp only [Machine.player, Machine.word, BitVec.ofNat_eq_ofNat] at hlast
  let m' := ((m.setWord 27 (m.word 27 + m.word 30)).setWord 28 (m.word 28 + m.word 30)).setWord 31 0
  refine ⟨{ m' with r0 := 0, r2 := m.word 30, t := true }, runs_of_advance 13 (by decide) ?_, ?_⟩
  · simp [hlast, Machine.setWord, m']
  · simp [Machine.setWord, Player.count, m']

private theorem endbyte_armed_carries : Carries 14 .endbyte .endbyteDone
    (fun p => p.waypoint ≠ 0 ∧ p.waypoint - 1 ≠ 0)
    fun p => ([], { p.count with waypoint := p.waypoint - 1 }) := by
  intro m harmed
  simp only [Machine.player, Machine.word, BitVec.ofNat_eq_ofNat] at harmed
  let w := m.word 31 - 1
  let m' := ((m.setWord 27 (m.word 27 + m.word 30)).setWord 28 (m.word 28 + m.word 30)).setWord 31 w
  refine ⟨{ m' with r0 := w, r2 := m.word 30, t := false }, runs_of_advance 14 (by decide) ?_, ?_⟩
  · simp [harmed.1, harmed.2, Machine.setWord, m', w]
  · simp [Machine.setWord, Player.count, m', w]

theorem endbyte_carries : Carries 20 .endbyte .endbyteDone Player.live Player.endbyte := by
  refine .split (fun p => p.waypoint = 0) ?_ (.split (fun p => p.waypoint = 1) ?_ ?_)
  · refine endbyte_disarmed_carries.weaken (by decide) (fun _ h => h.2) ?_
    intro p hp
    simp [Player.endbyte, Player.count, hp.2]
  · have last := endbyte_last_carries.strengthen
      (fun p (h : (Player.live p ∧ ¬p.waypoint = 0) ∧ p.waypoint = 1) => h.2)
    have hit := last.trans waypointHit_carries (fun _ h => h.1.1)
    refine hit.weaken (by decide) (fun _ h => h) ?_
    intro p hp
    simp [Player.andThen, Player.endbyte, Player.count, hp.2]
  · have harmed (p : Player) (h : (p.live ∧ ¬p.waypoint = 0) ∧ ¬p.waypoint = 1) :
        p.waypoint ≠ 0 ∧ p.waypoint - 1 ≠ 0 := by
      refine ⟨h.1.2, ?_⟩
      have hne := h.2
      bv_omega
    refine endbyte_armed_carries.weaken (by decide) harmed ?_
    intro p hp
    have h := harmed p hp
    simp only [Player.endbyte, Player.count, if_neg h.1, if_neg h.2]

/-! The start of a byte, and ticks with nothing to play. -/

/-- What an idle tick leaves in r2: the masked tail, if the script got that far. -/
def Player.glance (p : Player) : Player :=
  { p with data := if p.dir = 0 ∨ p.base = 0 then p.data else p.tail &&& p.mask }

private theorem fifoConsumeByte_idle_carries : Carries 11 .fifoConsumeByteNoIflagClear .alldone
    Player.idle fun p => ([], p.glance) := by
  intro m hidle
  simp only [Player.idle, Machine.player, Machine.word, BitVec.ofNat_eq_ofNat] at hidle
  by_cases hdir : m.dm (m.r7 + 30#32) = 0#32
  · refine ⟨{ m with r0 := 0, t := true }, runs_of_advance 3 (by decide) ?_, ?_⟩
    · simp [hdir]
    · simp [Player.glance, hdir]
  · by_cases hbase : m.r6 = 0#32
    · refine ⟨{ m with r0 := m.word 30, t := true }, runs_of_advance 5 (by decide) ?_, ?_⟩
      · simp [hdir, hbase]
      · simp [Player.glance, hbase]
    · have hmeet := (hidle.resolve_left hdir).resolve_left hbase
      let v := m.word 29 &&& m.r4
      refine ⟨{ m with r0 := v, r2 := v, t := true }, runs_of_advance 11 (by decide) ?_, ?_⟩
      · simp [hdir, hbase, hmeet, v]
      · simp [Player.glance, hdir, hbase, v]

private theorem fifoConsumeByte_busy (m : Machine) (hbusy : ¬m.player.idle) :
    m.dm (m.r7 + 30#32) ≠ 0#32 ∧ m.r6 ≠ 0#32 ∧
      m.dm (m.r7 + 28#32) &&& m.r4 ≠ m.dm (m.r7 + 29#32) &&& m.r4 := by
  simpa [Player.idle, not_or] using hbusy

private theorem fifoConsumeByte_power_carries :
    Carries 16 .fifoConsumeByteNoIflagClear .doPower
      (fun p => ¬p.idle ∧ bit p.pulse 7 = true)
      fun p => ([.read p.address p.pulse], { p with data := p.pulse.zeroExtend 32 }) := by
  intro m ⟨hbusy, hpower⟩
  obtain ⟨hdir, hbase, hmeet⟩ := fifoConsumeByte_busy m hbusy
  simp only [Player.pulse, Player.address, Machine.player, Machine.word,
    BitVec.ofNat_eq_ofNat] at hpower
  let a := (m.word 28 &&& m.r4) + m.r6
  refine ⟨{ m with r0 := a, r2 := (m.mem a).zeroExtend 32, msa := a, t := true },
    runs_of_advance 16 (by decide) ?_, ?_⟩
  · simp [hdir, hbase, hmeet, hpower, Player.pulse, Player.address, a]
  · simp [Player.pulse, Player.address, a]

private theorem fifoConsumeByte_motion_carries :
    Carries 22 .fifoConsumeByteNoIflagClear .doXDir
      (fun p => ¬p.idle ∧ bit p.pulse 7 = false)
      fun p => ([.read p.address p.pulse], { p with data := p.played }) := by
  intro m ⟨hbusy, hmotion⟩
  obtain ⟨hdir, hbase, hmeet⟩ := fifoConsumeByte_busy m hbusy
  simp only [Player.pulse, Player.address, Machine.player, Machine.word,
    BitVec.ofNat_eq_ofNat] at hmotion
  let a := (m.word 28 &&& m.r4) + m.r6
  let b := (m.mem a).zeroExtend 32
  cases hback : bit (m.dm (m.r7 + 30#32)) 31 with
  | false =>
      refine ⟨{ m with r0 := m.word 30, r2 := b, msa := a, t := false },
        runs_of_advance 19 (by decide) ?_, ?_⟩
      · simp [hdir, hbase, hmeet, hmotion, hback, Player.pulse, Player.address, a, b]
      · simp [Player.pulse, Player.address, Player.played, Player.backward, hback, a, b]
  | true =>
      let v := b ^^^ 0x4a
      refine ⟨{ m with r0 := m.word 30, r2 := lower v 4, msa := a, t := v == 0 },
        runs_of_advance 22 (by decide) ?_, ?_⟩
      · simp [hdir, hbase, hmeet, hmotion, hback, Player.pulse, Player.address, a, b, v]
      · simp [Player.pulse, Player.address, Player.played, Player.backward, hback, a, b, v]

private theorem alldone_again_carries : Carries 16 .alldone .alldoneWait
    (fun p => p.dir = 0) Player.park := by
  intro m hdir
  simp only [Machine.player, Machine.word, BitVec.ofNat_eq_ofNat] at hdir
  let w := Player.parkedPins m.r3
  by_cases hfull : m.r2 + 1#32 = 255#32
  · refine ⟨{ m with r0 := 0, r2 := 0, r3 := w, t := true }, runs_of_advance 16 (by decide) ?_, ?_⟩
    · simp [hdir, hfull, Player.park, Player.parkedPins, w]
    · simp [hdir, hfull, Player.park, w]
  · refine ⟨{ m with r0 := 0, r2 := m.r2 + 1, r3 := w, t := false },
      runs_of_advance 13 (by decide) ?_, ?_⟩
    · simp [hdir, hfull, Player.park, Player.parkedPins, w]
    · simp [hdir, hfull, Player.park, w]

private theorem alldone_first_carries : Carries 23 .alldone .alldoneWait
    (fun p => p.dir ≠ 0 ∧ p.live) Player.park := by
  intro m ⟨hdir, hlive⟩
  simp only [Player.live, Machine.player, Machine.word, BitVec.ofNat_eq_ofNat] at hdir hlive
  let w := Player.parkedPins m.r3
  let m' := (m.setWord 30 0).setWord 31 0
  refine ⟨{ m' with r0 := 1, r2 := 0, r3 := w, t := true }, runs_of_advance 23 (by decide) ?_, ?_⟩
  · simp [hdir, hlive, Player.park, Player.parkedPins, Machine.setWord, w, m']
  · simp [hdir, Player.park, Machine.setWord, w, m']

private theorem glance_park (p : Player) : p.glance.park = p.park := by
  unfold Player.park Player.glance
  by_cases hdir : p.dir = 0
  · simp [hdir]
  · simp only [if_neg hdir]

theorem park_carries : Carries 40 .fifoConsumeByteNoIflagClear .alldoneWait
    (fun p => p.idle ∧ p.live) Player.park := by
  have look := fifoConsumeByte_idle_carries.strengthen (fun p (h : p.idle ∧ p.live) => h.1)
  have done : Carries 23 .alldone .alldoneWait Player.live Player.park := by
    refine .split (fun p => p.dir = 0) ?_ ?_
    · exact alldone_again_carries.weaken (by decide) (fun _ h => h.2) (fun _ _ => rfl)
    · exact alldone_first_carries.strengthen (fun _ h => ⟨h.2, h.1⟩)
  refine (look.trans done (fun _ h => h.2)).weaken (by decide) (fun _ h => h) ?_
  intro p _
  simp [Player.andThen, glance_park]

theorem Player.power_live {p : Player} (h : p.live) (b : Word) : (p.power b).2.live := by
  unfold Player.live at h ⊢
  unfold Player.power
  split
  · exact h
  · split <;> simp [h]

theorem Player.motion_live {p : Player} (h : p.live) (b : Word) : (p.motion b).2.live := by
  unfold Player.live at h ⊢
  simp [Player.motion, h]

theorem Player.actOn_live {p : Player} (h : p.live) : p.actOn.2.live := by
  unfold Player.actOn
  split
  · exact Player.power_live h _
  · exact Player.motion_live h _

/-- One whole byte, from its fetch to its end. -/
theorem consume_carries : Carries 150 .fifoConsumeByteNoIflagClear .endbyteDone
    (fun p => ¬p.idle ∧ p.live) Player.consume := by
  refine .split (fun p => bit p.pulse 7 = true) ?_ ?_
  · have fetch := fifoConsumeByte_power_carries.strengthen
      (fun p (h : (¬p.idle ∧ p.live) ∧ bit p.pulse 7 = true) => ⟨h.1.1, h.2⟩)
    have act := fetch.trans doPower_carries (fun _ h => h.1.2)
    have byte := act.trans endbyte_carries (fun p h => Player.power_live (by exact h.1.2) _)
    refine byte.weaken (by decide) (fun _ h => h) ?_
    intro p hp
    have hact : p.actOn = p.power (p.pulse.zeroExtend 32) := if_pos hp.2
    rw [Player.consume, hact]
    rfl
  · have fetch := fifoConsumeByte_motion_carries.strengthen
      (fun p (h : (¬p.idle ∧ p.live) ∧ ¬bit p.pulse 7 = true) => ⟨h.1.1, Bool.eq_false_iff.mpr h.2⟩)
    have act := fetch.trans motion_carries (fun _ _ => trivial)
    have byte := act.trans endbyte_carries (fun p h => Player.motion_live (by exact h.1.2) _)
    refine byte.weaken (by decide) (fun _ h => h) ?_
    intro p hp
    have hact : p.actOn = p.motion p.played := if_neg hp.2
    rw [Player.consume, hact]
    rfl

end Glowforge.Sdma
