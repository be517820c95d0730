import Glowforge.Foundation.RingIndex
import Glowforge.Sdma.Session
import Glowforge.Sdma.Walk

/-! Pause and resume, byte by byte: a backward run of `n` bytes and a forward run of
`n` bytes after it. The byte under the head is played first in either direction, so
the two runs cover ranges that differ by one byte at each end. -/
namespace Glowforge.Sdma
open Foundation Engine Player

namespace Config

/-- Run the script until it has finished its next byte. -/
def nextByte (fuel : Nat) (c : Config Label) : Option (Config Label) :=
  (execTo script.step byteDone fuel c).map (·.2)

def playBytes (fuel : Nat) : Nat → Config Label → Option (Config Label)
  | 0, c => some c
  | n + 1, c => (nextByte fuel c).bind (playBytes fuel n)

/-- The script is stopped between two bytes: at a wait, or right after a byte. -/
def BetweenBytes (c : Config Label) : Prop :=
  (∃ ph : Phase, ph.Waits c) ∨ c.m.player.live ∧ c = script.goto .endbyteDone c.m

theorem nextByte_unique {n k : Nat} {c c₁ c₂ : Config Label} (h₁ : nextByte n c = some c₁)
    (h₂ : nextByte k c = some c₂) : c₁ = c₂ := by
  obtain ⟨r₁, hr₁, rfl⟩ := Option.map_eq_some_iff.mp h₁
  obtain ⟨r₂, hr₂, rfl⟩ := Option.map_eq_some_iff.mp h₂
  rw [execTo_unique hr₁ hr₂]

theorem nextByte_mono {n k : Nat} {c c' : Config Label} (h : nextByte n c = some c')
    (hle : n ≤ k) : nextByte k c = some c' := by
  obtain ⟨r, hr, rfl⟩ := Option.map_eq_some_iff.mp h
  unfold nextByte
  rw [execTo_mono hr hle]
  rfl

theorem playBytes_unique {n k b : Nat} {c c₁ c₂ : Config Label} (h₁ : playBytes n b c = some c₁)
    (h₂ : playBytes k b c = some c₂) : c₁ = c₂ := by
  induction b generalizing c with
  | zero =>
      cases h₁
      cases h₂
      rfl
  | succ b ih =>
      obtain ⟨d₁, hd₁, hrest₁⟩ := Option.bind_eq_some_iff.mp h₁
      obtain ⟨d₂, hd₂, hrest₂⟩ := Option.bind_eq_some_iff.mp h₂
      rw [nextByte_unique hd₁ hd₂] at hrest₁
      exact ih hrest₁ hrest₂

section Fetch

attribute [local simp] nextByte execTo byteDone script Program.goto Program.step Label.block
  Label.next Instr.exec Machine.get Machine.set Signal.state Signal.out Option.map_map
  Function.comp_def

private theorem nextByte_start (fuel : Nat) (m : Machine) :
    nextByte (fuel + 7) (script.goto .start m) =
      nextByte fuel (script.goto .fifoConsumeByteNoIflagClear { m with r1 := 1, r3 := 0 }) := by
  simp

private theorem nextByte_ready {c : Config Label} (hw : Phase.ready.Waits c) (fuel : Nat) :
    ∃ k ≤ 4, ∃ t, nextByte (fuel + k) c =
      nextByte fuel (script.goto .fifoConsumeByteNoIflagClear { c.m with t := t }) := by
  obtain ⟨hlive, -, hc | hc⟩ := hw
  · refine ⟨3, by decide, c.m.t, ?_⟩
    rw [hc]
    simp
  · refine ⟨4, by decide, true, ?_⟩
    simp only [live, Machine.player] at hlive
    rw [hc]
    simp [hlive]

private theorem nextByte_parked {m : Machine} (hlive : m.player.live) (fuel : Nat) :
    nextByte (fuel + 11) ⟨.alldoneWait, [.btsti .r1 0, .bt .restartRelay], m⟩ =
      nextByte fuel
        (script.goto .fifoConsumeByteNoIflagClear { m with r1 := 1, r3 := 0, t := true }) := by
  simp only [live, Machine.player] at hlive
  simp [hlive]

private theorem nextByte_alldoneWait (fuel : Nat) (m : Machine) :
    nextByte (fuel + 1) (script.goto .alldoneWait m) =
      nextByte fuel ⟨.alldoneWait, [.btsti .r1 0, .bt .restartRelay], m⟩ := by
  simp

private theorem nextByte_endbyteDone_more {m : Machine} (h : bit m.r1 2 = true) (fuel : Nat) :
    nextByte (fuel + 3) (script.goto .endbyteDone m) =
      nextByte fuel (script.goto .fifoConsumeByteNoIflagClear
        { m with r1 := lower m.r1 2, t := true }) := by
  simp [h]

private theorem nextByte_endbyteDone_last {m : Machine} (hlive : m.player.live)
    (h : bit m.r1 2 = false) (fuel : Nat) :
    nextByte (fuel + 8) (script.goto .endbyteDone m) =
      nextByte fuel (script.goto .fifoConsumeByteNoIflagClear
        { m with r1 := lower m.r1 2, t := true }) := by
  simp only [live, Machine.player] at hlive
  simp [h, hlive]

end Fetch

/-- Whatever the script does between two bytes, it comes to its next fetch with the
same ring, counters and direction. -/
private theorem nextByte_fetch {c : Config Label} (hb : BetweenBytes c) (fuel : Nat) :
    ∃ k ≤ 11, ∃ m f w, m.player.live ∧ m.player = { c.m.player with flags := f, pins := w } ∧
      nextByte (fuel + k) c = nextByte fuel (script.goto .fifoConsumeByteNoIflagClear m) := by
  have hone : bit (1 : Word) 0 = true := by decide
  rcases hb with ⟨ph, hw⟩ | ⟨hlive, hc⟩
  · cases ph with
    | boot =>
        refine ⟨7, by decide, { c.m with r1 := 1, r3 := 0 }, 1, 0, hone, rfl, ?_⟩
        rw [← nextByte_start fuel c.m, ← hw]
    | ready =>
        obtain ⟨k, hk, t, h⟩ := nextByte_ready hw fuel
        exact ⟨k, by omega, { c.m with t := t }, _, _, hw.1, rfl, h⟩
    | parked =>
        refine ⟨11, by decide, { c.m with r1 := 1, r3 := 0, t := true }, 1, 0, hone, rfl, ?_⟩
        rw [← nextByte_parked hw.1 fuel, ← hw.2]
  · have hlive' : bit (lower c.m.r1 2) 0 = true := by
      simp only [live, Machine.player] at hlive
      simp [hlive]
    cases hmore : bit c.m.r1 2 with
    | true =>
        refine ⟨3, by decide, { c.m with r1 := lower c.m.r1 2, t := true }, _, _, hlive', rfl, ?_⟩
        rw [← nextByte_endbyteDone_more hmore fuel, ← hc]
    | false =>
        refine ⟨8, by decide, { c.m with r1 := lower c.m.r1 2, t := true }, _, _, hlive', rfl, ?_⟩
        rw [← nextByte_endbyteDone_last hlive hmore fuel, ← hc]

private theorem byteDone_fetch (m : Machine) :
    byteDone (script.goto .fifoConsumeByteNoIflagClear m) = false := rfl

theorem nextByte_busy {c : Config Label} (hb : BetweenBytes c) (hbusy : ¬c.m.player.idle) :
    ∃ c' f w, nextByte 161 c = some c' ∧ BetweenBytes c' ∧
      c'.m.player = ({ c.m.player with flags := f, pins := w } : Player).consume.2 := by
  obtain ⟨k, hk, m, f, w, hlive, hp, h⟩ := nextByte_fetch hb 150
  have hbusy' : ¬m.player.idle := by
    rw [hp]
    exact hbusy
  obtain ⟨m', hruns, hp'⟩ := consume_carries m ⟨hbusy', hlive⟩
  have hexec := execTo_of_runs hruns (byteDone_fetch m) rfl (Nat.le_refl 150)
  have hnext : nextByte (150 + k) c = some (script.goto .endbyteDone m') := by
    rw [h, nextByte, hexec]
    rfl
  refine ⟨script.goto .endbyteDone m', f, w, nextByte_mono hnext (by omega), .inr ⟨?_, rfl⟩, ?_⟩
  · show m'.player.live
    rw [hp']
    exact live_endbyte (actOn_live hlive)
  · rw [← hp]
    exact hp'

private theorem nextByte_idle_fetch (fuel : Nat) {m : Machine} (hlive : m.player.live)
    (hidle : m.player.idle) :
    nextByte fuel (script.goto .fifoConsumeByteNoIflagClear m) = none := by
  -- a round through the parked wait costs fuel and comes back with direction zero
  induction fuel using Nat.strong_induction_on generalizing m with
  | h fuel ih =>
      cases hnext : nextByte fuel (script.goto .fifoConsumeByteNoIflagClear m) with
      | none => rfl
      | some c' =>
          exfalso
          obtain ⟨r, hr, -⟩ := Option.map_eq_some_iff.mp hnext
          obtain ⟨m', hruns, hp'⟩ := park_carries m ⟨hidle, hlive⟩
          obtain ⟨fuel', r', -, hlt, hr', -⟩ := execTo_after_runs hruns rfl hr
          have hless : fuel' < fuel := by
            refine hlt.resolve_left fun heq => ?_
            exact Label.noConfusion (congrArg Config.here heq)
          have hlive' : m'.player.live := by
            rw [hp']
            exact live_park hlive
          let m'' : Machine := { m' with r1 := 1, r3 := 0, t := true }
          have hround : nextByte (fuel' + 12) (script.goto .alldoneWait m') =
              nextByte fuel' (script.goto .fifoConsumeByteNoIflagClear m'') := by
            rw [nextByte_alldoneWait, nextByte_parked hlive']
          have hdir : m''.player.dir = 0 := by
            have h : m'.player.dir = 0 := by rw [hp', park_dir]
            exact h
          have hone : m''.player.live := show bit (1 : Word) 0 = true by decide
          have hnone := @ih fuel' hless m'' hone (.inl hdir)
          have hsome : nextByte fuel' (script.goto .alldoneWait m') = some r'.2 := by
            rw [nextByte, hr']
            rfl
          rw [← hround, nextByte_mono hsome (Nat.le_add_right fuel' 12)] at hnone
          contradiction

theorem nextByte_idle {c : Config Label} (hb : BetweenBytes c) (hidle : c.m.player.idle)
    (fuel : Nat) : nextByte fuel c = none := by
  obtain ⟨k, -, m, f, w, hlive, hp, h⟩ := nextByte_fetch hb fuel
  have hidle' : m.player.idle := by
    rw [hp]
    exact hidle
  cases hnext : nextByte fuel c with
  | none => rfl
  | some c' =>
      rw [nextByte_idle_fetch fuel hlive hidle', nextByte_mono hnext (Nat.le_add_right fuel k)] at h
      contradiction

end Config

/-! What one byte does to the counters, and what `n` of them do. -/

structure Counters where
  x : Word
  y : Word
  z : Word
  bytes : Word
  head : Word

def Player.counters (p : Player) : Counters where
  x := p.x
  y := p.y
  z := p.z
  bytes := p.bytes
  head := p.head

/-- The step a byte played forward makes along an axis; a power byte makes none. -/
def byteStep (delta : Word → Word) (b : Byte) : Word :=
  if bit b 7 then 0 else delta (b.zeroExtend 32)

private theorem backward_bits (b : Word) : bit (lower (b ^^^ 0x4a) 4) 0 = bit b 0 ∧
    bit (lower (b ^^^ 0x4a) 4) 1 = !bit b 1 ∧ bit (lower (b ^^^ 0x4a) 4) 2 = bit b 2 ∧
    bit (lower (b ^^^ 0x4a) 4) 3 = !bit b 3 ∧ bit (lower (b ^^^ 0x4a) 4) 5 = bit b 5 ∧
    bit (lower (b ^^^ 0x4a) 4) 6 = !bit b 6 := by
  have h0 : bit (0x4a#32) 0 = false := by decide
  have h1 : bit (0x4a#32) 1 = true := by decide
  have h2 : bit (0x4a#32) 2 = false := by decide
  have h3 : bit (0x4a#32) 3 = true := by decide
  have h5 : bit (0x4a#32) 5 = false := by decide
  have h6 : bit (0x4a#32) 6 = true := by decide
  simp [h0, h1, h2, h3, h5, h6]

theorem xDelta_backward (b : Word) : xDelta (lower (b ^^^ 0x4a) 4) = -xDelta b := by
  obtain ⟨h0, h1, -⟩ := backward_bits b
  unfold xDelta
  rw [h0, h1]
  cases bit b 0 <;> cases bit b 1 <;> rfl

theorem yDelta_backward (b : Word) : yDelta (lower (b ^^^ 0x4a) 4) = -yDelta b := by
  obtain ⟨-, -, h2, h3, -⟩ := backward_bits b
  unfold yDelta
  rw [h2, h3]
  cases bit b 2 <;> cases bit b 3 <;> rfl

theorem zDelta_backward (b : Word) : zDelta (lower (b ^^^ 0x4a) 4) = -zDelta b := by
  obtain ⟨-, -, -, -, h5, h6⟩ := backward_bits b
  unfold zDelta
  rw [h5, h6]
  cases bit b 5 <;> cases bit b 6 <;> rfl

def Player.step (p : Player) (delta : Word → Word) (b : Byte) : Word :=
  if p.backward then -byteStep delta b else byteStep delta b

private theorem endbyte_counters (p : Player) : p.endbyte.2.counters =
    { p.counters with bytes := p.bytes + p.dir, head := p.head + p.dir } := by
  obtain ⟨w, i, h, -⟩ := endbyte_cases p
  rw [h]
  rfl

private theorem actOn_counters (p : Player) : p.actOn.2.counters =
    { p.counters with
      x := p.x + p.step xDelta p.pulse
      y := p.y + p.step yDelta p.pulse
      z := p.z + p.step zDelta p.pulse } := by
  cases hpower : bit p.pulse 7 with
  | true =>
      have hact : p.actOn = p.power (p.pulse.zeroExtend 32) := if_pos hpower
      obtain ⟨d, f, h⟩ := power_cases p (p.pulse.zeroExtend 32)
      rw [hact, h]
      simp [counters, Player.step, byteStep, hpower]
  | false =>
      rw [actOn_of_motion hpower]
      cases hback : p.backward with
      | true =>
          simpa [counters, motion, Player.step, byteStep, played, hpower, hback] using
            ⟨xDelta_backward _, yDelta_backward _, zDelta_backward _⟩
      | false =>
          simp [counters, motion, Player.step, byteStep, played, hpower, hback]

theorem consume_counters (p : Player) : p.consume.2.counters =
    { x := p.x + p.step xDelta p.pulse
      y := p.y + p.step yDelta p.pulse
      z := p.z + p.step zDelta p.pulse
      bytes := p.bytes + p.dir
      head := p.head + p.dir } := by
  have hend := endbyte_counters p.actOn.2
  rw [actOn_counters, actOn_bytes, actOn_head, actOn_dir] at hend
  exact hend

def Player.travel (p : Player) (delta : Word → Word) (n : Nat) : Word :=
  ∑ j ∈ Finset.range n, p.step delta (p.cell (p.head + j • p.dir))

theorem travel_succ {p q : Player} (hsetup : q.setup = p.setup) (hdir : q.dir = p.dir)
    (hhead : q.head = p.head + p.dir) (delta : Word → Word) (n : Nat) :
    p.travel delta (n + 1) = p.step delta p.pulse + q.travel delta n := by
  have hcell : q.cell = p.cell := (cell_of_setup hsetup).2
  have hstep : q.step delta = p.step delta := by
    funext b
    rw [Player.step, Player.step, backward, backward, hdir]
  unfold travel
  rw [Finset.sum_range_succ', add_comm, hcell, hstep]
  congr 1
  · rw [zero_nsmul, add_zero]
    rfl
  · apply Finset.sum_congr rfl
    intro j _
    rw [hhead, hdir, add_assoc, succ_nsmul']

theorem playBytes_travel {c : Config Label} (hb : c.BetweenBytes) (hdir : c.m.player.dir ≠ 0)
    (hbase : c.m.player.base ≠ 0) (n : Nat)
    (hroom : ∀ j < n, (c.m.player.head + j • c.m.player.dir) &&& c.m.player.mask ≠
      c.m.player.tail &&& c.m.player.mask) :
    ∃ c', c.playBytes 161 n = some c' ∧ c'.BetweenBytes ∧ c'.m.player.setup = c.m.player.setup ∧
      c'.m.player.counters =
        { x := c.m.player.x + c.m.player.travel xDelta n
          y := c.m.player.y + c.m.player.travel yDelta n
          z := c.m.player.z + c.m.player.travel zDelta n
          bytes := c.m.player.bytes + n • c.m.player.dir
          head := c.m.player.head + n • c.m.player.dir } := by
  induction n generalizing c with
  | zero => exact ⟨c, rfl, hb, rfl, by simp [travel, counters]⟩
  | succ n ih =>
      have hbusy : ¬c.m.player.idle := by
        have h := hroom 0 (Nat.succ_pos n)
        rw [zero_nsmul, add_zero] at h
        simp only [idle, not_or]
        exact ⟨hdir, hbase, h⟩
      obtain ⟨c₁, f, w, hnext, hb₁, hp₁⟩ := Config.nextByte_busy hb hbusy
      let q : Player := { c.m.player with flags := f, pins := w }
      have hcount : c₁.m.player.counters = q.consume.2.counters := by rw [hp₁]
      rw [consume_counters] at hcount
      have hsetup : c₁.m.player.setup = c.m.player.setup := by
        rw [hp₁]
        exact consume_setup q
      have hdir₁ : c₁.m.player.dir = c.m.player.dir := by
        rw [hp₁]
        exact consume_dir q
      have hhead : c₁.m.player.head = c.m.player.head + c.m.player.dir :=
        congrArg Counters.head hcount
      have hroom₁ : ∀ j < n, (c₁.m.player.head + j • c₁.m.player.dir) &&& c₁.m.player.mask ≠
          c₁.m.player.tail &&& c₁.m.player.mask := by
        intro j hj
        have hmask : c₁.m.player.mask = c.m.player.mask := congrArg Setup.mask hsetup
        have htail : c₁.m.player.tail = c.m.player.tail := congrArg Setup.tail hsetup
        have h := hroom (j + 1) (Nat.succ_lt_succ hj)
        rw [succ_nsmul', ← add_assoc] at h
        rwa [hhead, hdir₁, hmask, htail]
      have hbase₁ : c₁.m.player.base ≠ 0 := by
        have h : c₁.m.player.base = c.m.player.base := congrArg Setup.base hsetup
        rwa [h]
      obtain ⟨c', hplay, hb', hsetup', hcount'⟩ := ih hb₁ (by rwa [hdir₁]) hbase₁ hroom₁
      refine ⟨c', ?_, hb', hsetup'.trans hsetup, ?_⟩
      · rw [Config.playBytes, hnext]
        exact hplay
      · have hx : c₁.m.player.x = c.m.player.x + c.m.player.step xDelta c.m.player.pulse :=
          congrArg Counters.x hcount
        have hy : c₁.m.player.y = c.m.player.y + c.m.player.step yDelta c.m.player.pulse :=
          congrArg Counters.y hcount
        have hz : c₁.m.player.z = c.m.player.z + c.m.player.step zDelta c.m.player.pulse :=
          congrArg Counters.z hcount
        have hbytes : c₁.m.player.bytes = c.m.player.bytes + c.m.player.dir :=
          congrArg Counters.bytes hcount
        rw [hcount', hx, hy, hz, hbytes, hhead, hdir₁, succ_nsmul' c.m.player.dir n]
        simp only [travel_succ hsetup hdir₁ hhead, add_assoc]

theorem Config.BetweenBytes.start {c : Config Label} (h : c.BetweenBytes) (tail : Word)
    (backward accelerate : Bool) (numSteps : Word) :
    (c.start tail backward accelerate numSteps).BetweenBytes := by
  rcases h with ⟨ph, hw⟩ | ⟨hlive, hc⟩
  · exact .inl ⟨ph, hw.start tail backward accelerate numSteps⟩
  · refine .inr ⟨?_, ?_⟩
    · rw [player_start]
      exact hlive
    · rw [hc]
      rfl

/-- Backward for `n` bytes towards `deadStop`, then forward for `n` bytes towards
`fifoIn`: the script gets that far, and its counters are back where they were. -/
def Retraces (c : Config Label) (n : Nat) (deadStop fifoIn lead₁ lead₂ : Word)
    (accelerate : Bool) : Prop :=
  ∃ fuel c₁ c₂, (c.start deadStop true true lead₁).playBytes fuel n = some c₁ ∧
    (c₁.start fifoIn false accelerate lead₂).playBytes fuel n = some c₂ ∧
    c₂.m.player.counters = c.m.player.counters

def SameSteps (a b : Byte) : Prop :=
  byteStep xDelta a = byteStep xDelta b ∧ byteStep yDelta a = byteStep yDelta b ∧
    byteStep zDelta a = byteStep zDelta b

instance (a b : Byte) : Decidable (SameSteps a b) := inferInstanceAs (Decidable (_ ∧ _ ∧ _))

def Player.ahead (p : Player) (delta : Word → Word) (i : Word) (n : Nat) : Word :=
  ∑ j ∈ Finset.range n, byteStep delta (p.cell (i + j))

def Player.behind (p : Player) (delta : Word → Word) (i : Word) (n : Nat) : Word :=
  ∑ j ∈ Finset.range n, byteStep delta (p.cell (i - j))

private theorem travel_backward (p : Player) (tail lead : Word) (delta : Word → Word) (n : Nat) :
    (p.start tail true true lead).travel delta n = -p.behind delta p.head n := by
  have hminus : (0xFFFFFFFF : Word) = -1 := by decide
  have hback : (p.start tail true true lead).backward = true := by
    simp only [Player.start, Player.backward]
    decide
  unfold behind
  rw [← Finset.sum_neg_distrib]
  apply Finset.sum_congr rfl
  intro j _
  rw [Player.step, if_pos hback]
  have hindex : (p.start tail true true lead).head + j • (p.start tail true true lead).dir =
      p.head - j := by
    show p.head + j • (0xFFFFFFFF : Word) = p.head - j
    rw [hminus, neg_nsmul, nsmul_one, sub_eq_add_neg]
  rw [hindex]
  rfl

private theorem travel_forward (p : Player) (tail lead : Word) (accelerate : Bool)
    (delta : Word → Word) (n : Nat) :
    (p.start tail false accelerate lead).travel delta n = p.ahead delta p.head n := by
  have hforth : (p.start tail false accelerate lead).backward = false := by
    simp only [Player.start, Player.backward]
    decide
  apply Finset.sum_congr rfl
  intro j _
  rw [Player.step, hforth, if_neg Bool.false_ne_true]
  have hindex : (p.start tail false accelerate lead).head +
      j • (p.start tail false accelerate lead).dir = p.head + j := by
    show p.head + j • (1 : Word) = p.head + j
    rw [nsmul_one]
  rw [hindex]
  rfl

section Pause

variable {c : Config Label} {n k : Nat} {deadStop fifoIn lead₁ lead₂ : Word} {accelerate : Bool}

private theorem playBytes_backward (hb : c.BetweenBytes) (hbase : c.m.player.base ≠ 0)
    (hroom : ∀ j < n, (c.m.player.head - (j : Word)) &&& c.m.player.mask ≠
      deadStop &&& c.m.player.mask) :
    ∃ c₁, (c.start deadStop true true lead₁).playBytes 161 n = some c₁ ∧ c₁.BetweenBytes ∧
      c₁.m.player.setup = { c.m.player.setup with tail := deadStop } ∧
      c₁.m.player.counters =
        { x := c.m.player.x - c.m.player.behind xDelta c.m.player.head n
          y := c.m.player.y - c.m.player.behind yDelta c.m.player.head n
          z := c.m.player.z - c.m.player.behind zDelta c.m.player.head n
          bytes := c.m.player.bytes - n
          head := c.m.player.head - n } := by
  have hminus : (0xFFFFFFFF : Word) = -1 := by decide
  have hp := player_start c deadStop true true lead₁
  have hdir : (c.start deadStop true true lead₁).m.player.dir = -1 := by rw [hp]; exact hminus
  have hroom' : ∀ j < n, ((c.start deadStop true true lead₁).m.player.head +
      j • (c.start deadStop true true lead₁).m.player.dir) &&&
        (c.start deadStop true true lead₁).m.player.mask ≠
      (c.start deadStop true true lead₁).m.player.tail &&&
        (c.start deadStop true true lead₁).m.player.mask := by
    intro j hj
    rw [hdir, hp, neg_nsmul, nsmul_one, ← sub_eq_add_neg]
    exact hroom j hj
  obtain ⟨c₁, hplay, hb₁, hsetup, hcount⟩ := playBytes_travel
    (hb.start deadStop true true lead₁) (by rw [hdir]; decide) (by rw [hp]; exact hbase) n hroom'
  refine ⟨c₁, hplay, hb₁, ?_, ?_⟩
  · rw [hsetup, hp]
    rfl
  · rw [hcount, hdir, hp, travel_backward, travel_backward, travel_backward, neg_nsmul, nsmul_one]
    simp only [sub_eq_add_neg]
    rfl

private theorem playBytes_forward (hb : c.BetweenBytes) (hbase : c.m.player.base ≠ 0)
    (hroom : ∀ j < n, (c.m.player.head + (j : Word)) &&& c.m.player.mask ≠
      fifoIn &&& c.m.player.mask) :
    ∃ c₂, (c.start fifoIn false accelerate lead₂).playBytes 161 n = some c₂ ∧
      c₂.m.player.counters =
        { x := c.m.player.x + c.m.player.ahead xDelta c.m.player.head n
          y := c.m.player.y + c.m.player.ahead yDelta c.m.player.head n
          z := c.m.player.z + c.m.player.ahead zDelta c.m.player.head n
          bytes := c.m.player.bytes + n
          head := c.m.player.head + n } := by
  have hp := player_start c fifoIn false accelerate lead₂
  have hdir : (c.start fifoIn false accelerate lead₂).m.player.dir = 1 := by rw [hp]; rfl
  have hroom' : ∀ j < n, ((c.start fifoIn false accelerate lead₂).m.player.head +
      j • (c.start fifoIn false accelerate lead₂).m.player.dir) &&&
        (c.start fifoIn false accelerate lead₂).m.player.mask ≠
      (c.start fifoIn false accelerate lead₂).m.player.tail &&&
        (c.start fifoIn false accelerate lead₂).m.player.mask := by
    intro j hj
    rw [hdir, hp, nsmul_one]
    exact hroom j hj
  obtain ⟨c₂, hplay, -, -, hcount⟩ := playBytes_travel
    (hb.start fifoIn false accelerate lead₂) (by rw [hdir]; decide) (by rw [hp]; exact hbase) n
    hroom'
  refine ⟨c₂, hplay, ?_⟩
  rw [hcount, hdir, hp, travel_forward, travel_forward, travel_forward, nsmul_one]
  rfl

private theorem nil_forward (hb : c.BetweenBytes) (hn : 0 < n)
    (hmeet : c.m.player.head &&& c.m.player.mask = fifoIn &&& c.m.player.mask) (fuel : Nat) :
    (c.start fifoIn false accelerate lead₂).playBytes fuel n = none := by
  obtain ⟨n, rfl⟩ := Nat.exists_eq_succ_of_ne_zero (Nat.ne_of_gt hn)
  have hidle : (c.start fifoIn false accelerate lead₂).m.player.idle := by
    rw [player_start]
    exact .inr (.inr hmeet)
  rw [Config.playBytes, Config.nextByte_idle (hb.start fifoIn false accelerate lead₂) hidle]
  rfl

private theorem ahead_sub_behind (p : Player) (delta : Word → Word) (i : Word) (n : Nat) :
    p.ahead delta (i - n) n - p.behind delta i n =
      byteStep delta (p.cell (i - n)) - byteStep delta (p.cell i) :=
  sum_retrace (fun i => byteStep delta (p.cell i)) i n

private theorem retraced_iff (v a b s t : Word) (h : a - b = s - t) : v - b + a = v ↔ t = s := by
  have hsplit : v - b + a = v + (s - t) := by
    rw [← h]
    abel
  rw [hsplit, add_eq_left, sub_eq_zero]
  exact eq_comm

/-- Where the forward run starts, it stands under the mask on the tail only if the
retraced bytes and the unplayed ones fill the ring. -/
private theorem forward_room (hmask : IsMask k c.m.player.mask)
    (hfit : n + (fifoIn - c.m.player.head).toNat ≤ 2 ^ k) {j : Nat} (hj : j < n) :
    (c.m.player.head - (n : Word) + (j : Word)) &&& c.m.player.mask = fifoIn &&& c.m.player.mask ↔
      j = 0 ∧ n + (fifoIn - c.m.player.head).toNat = 2 ^ k := by
  have hlt := hmask.size_lt
  have hdist := toNat_sub_back (i := fifoIn) (j := c.m.player.head) (Nat.le_of_lt hj)
    (by omega : (fifoIn - c.m.player.head).toNat + n < 2 ^ 32)
  rw [eq_comm, hmask.and_eq_iff, hdist]
  constructor
  · intro hdvd
    have hle := Nat.le_of_dvd (by omega) hdvd
    omega
  · intro ⟨hzero, hfull⟩
    subst hzero
    rw [Nat.sub_zero, Nat.add_comm, hfull]

/-- The counters after both halves: what the two outermost bytes leave. -/
private theorem counters_iff {c₁ c₂ : Config Label}
    (hcell : c₁.m.player.cell = c.m.player.cell)
    (hcount₁ : c₁.m.player.counters =
      { x := c.m.player.x - c.m.player.behind xDelta c.m.player.head n
        y := c.m.player.y - c.m.player.behind yDelta c.m.player.head n
        z := c.m.player.z - c.m.player.behind zDelta c.m.player.head n
        bytes := c.m.player.bytes - n
        head := c.m.player.head - n })
    (hcount₂ : c₂.m.player.counters =
      { x := c₁.m.player.x + c₁.m.player.ahead xDelta c₁.m.player.head n
        y := c₁.m.player.y + c₁.m.player.ahead yDelta c₁.m.player.head n
        z := c₁.m.player.z + c₁.m.player.ahead zDelta c₁.m.player.head n
        bytes := c₁.m.player.bytes + n
        head := c₁.m.player.head + n }) :
    c₂.m.player.counters = c.m.player.counters ↔
      SameSteps (c.m.player.cell c.m.player.head) (c.m.player.cell (c.m.player.head - n)) := by
  have hx : c₁.m.player.x = _ := congrArg Counters.x hcount₁
  have hy : c₁.m.player.y = _ := congrArg Counters.y hcount₁
  have hz : c₁.m.player.z = _ := congrArg Counters.z hcount₁
  have hbytes : c₁.m.player.bytes = _ := congrArg Counters.bytes hcount₁
  have hhead : c₁.m.player.head = _ := congrArg Counters.head hcount₁
  have hahead (delta : Word → Word) : c₁.m.player.ahead delta = c.m.player.ahead delta := by
    funext i n
    rw [ahead, ahead, hcell]
  rw [hcount₂, hx, hy, hz, hbytes, hhead]
  simp only [hahead, counters, Counters.mk.injEq, sub_add_cancel, and_true]
  exact and_congr (retraced_iff _ _ _ _ _ (ahead_sub_behind _ _ _ _))
    (and_congr (retraced_iff _ _ _ _ _ (ahead_sub_behind _ _ _ _))
      (retraced_iff _ _ _ _ _ (ahead_sub_behind _ _ _ _)))

private theorem retraces_iff_sameSteps (hb : c.BetweenBytes) (hmask : IsMask k c.m.player.mask)
    (hbase : c.m.player.base ≠ 0) (hn : 0 < n)
    (hfit : n + (fifoIn - c.m.player.head).toNat ≤ 2 ^ k)
    (hroom : ∀ j < n, (c.m.player.head - (j : Word)) &&& c.m.player.mask ≠
      deadStop &&& c.m.player.mask) :
    Retraces c n deadStop fifoIn lead₁ lead₂ accelerate ↔
      n + (fifoIn - c.m.player.head).toNat < 2 ^ k ∧
        SameSteps (c.m.player.cell c.m.player.head) (c.m.player.cell (c.m.player.head - n)) := by
  obtain ⟨c₁, hback, hb₁, hsetup₁, hcount₁⟩ := @playBytes_backward c n deadStop lead₁ hb hbase hroom
  have hmask₁ : c₁.m.player.mask = c.m.player.mask := congrArg Setup.mask hsetup₁
  have hbase₁ : c₁.m.player.base = c.m.player.base := congrArg Setup.base hsetup₁
  have hmem₁ : c₁.m.player.mem = c.m.player.mem := congrArg Setup.mem hsetup₁
  have hhead₁ : c₁.m.player.head = c.m.player.head - n := congrArg Counters.head hcount₁
  have hcell : c₁.m.player.cell = c.m.player.cell := by
    funext i
    rw [cell, cell, cellAddress, cellAddress, hmask₁, hbase₁, hmem₁]
  by_cases hfull : n + (fifoIn - c.m.player.head).toNat = 2 ^ k
  · have hmeet : c₁.m.player.head &&& c₁.m.player.mask = fifoIn &&& c₁.m.player.mask := by
      have h := (forward_room hmask hfit hn).mpr ⟨rfl, hfull⟩
      rw [Nat.cast_zero, add_zero] at h
      rwa [hhead₁, hmask₁]
    constructor
    · rintro ⟨fuel, d₁, d₂, h₁, h₂, _⟩
      rw [Config.playBytes_unique h₁ hback, nil_forward hb₁ hn hmeet] at h₂
      contradiction
    · rintro ⟨hlt, _⟩
      exact absurd hfull (Nat.ne_of_lt hlt)
  · have hroom₁ : ∀ j < n, (c₁.m.player.head + (j : Word)) &&& c₁.m.player.mask ≠
        fifoIn &&& c₁.m.player.mask := by
      intro j hj hmeet
      rw [hhead₁, hmask₁] at hmeet
      exact hfull ((forward_room hmask hfit hj).mp hmeet).2
    obtain ⟨c₂, hforth, hcount₂⟩ := @playBytes_forward c₁ n fifoIn lead₂ accelerate hb₁
      (by rwa [hbase₁]) hroom₁
    have hiff := counters_iff hcell hcount₁ hcount₂
    constructor
    · rintro ⟨fuel, d₁, d₂, h₁, h₂, heq⟩
      rw [Config.playBytes_unique h₁ hback] at h₂
      rw [Config.playBytes_unique h₂ hforth] at heq
      exact ⟨Nat.lt_of_le_of_ne hfit hfull, hiff.mp heq⟩
    · rintro ⟨_, hsame⟩
      exact ⟨161, c₁, c₂, hback, hforth, hiff.mpr hsame⟩

/-- When a pause of `n` bytes is retraced exactly. -/
theorem retraces_iff (hb : c.BetweenBytes) (hmask : IsMask k c.m.r4) (hbase : c.m.r6 ≠ 0)
    (hn : 0 < n) (hresident : n + (fifoIn - c.m.word 28).toNat ≤ 2 ^ k)
    (hroom : ∀ j < n, (c.m.word 28 - (j : Word)) &&& c.m.r4 ≠ deadStop &&& c.m.r4) :
    Retraces c n deadStop fifoIn lead₁ lead₂ accelerate ↔
      n + (fifoIn - c.m.word 28).toNat < 2 ^ k ∧
        SameSteps (c.m.player.cell (c.m.word 28)) (c.m.player.cell (c.m.word 28 - n)) :=
  retraces_iff_sameSteps hb hmask hbase hn hresident hroom

end Pause

private def restedOnce : ScriptArgs := .over fun a => if a = 0x20000002 then 0 else 1

private theorem restedOnce_plays :
    (System.execute Config.host (.start 5 false false 0 :: List.replicate 4 (.tick 200))
      (loadSdmaScript restedOnce)).map (fun r => (r.2.m.word 24, r.2.m.r4, r.2.m.r6, r.2.m.word 28,
        r.2.m.player.cell 3, r.2.m.player.cell 1)) =
      some (2, 0xFFFFF, 0x20000000, 3, 1, 1) := by
  decide +kernel

/-- Three bytes are played, and two of them retraced. -/
theorem retraces_iff_played : ∃ c, System.Reachable Config.host (loadSdmaScript restedOnce) c ∧
    c.m.word 24 = 2 ∧ c.m.word 28 = 3 ∧ Retraces c 2 0xFFFFFFFF 5 1 1 true := by
  obtain ⟨r, hexec, hout⟩ := Option.map_eq_some_iff.mp restedOnce_plays
  simp only [Prod.mk.injEq] at hout
  obtain ⟨hx, hmask, hbase, hhead, hcell₃, hcell₁⟩ := hout
  have hreach : System.Reachable Config.host (loadSdmaScript restedOnce) r.2 := ⟨_, _, hexec⟩
  refine ⟨r.2, hreach, hx, hhead, ?_⟩
  refine (retraces_iff (k := 20) (.inl (waits_host_reachable hreach)) ?_ ?_ ?_ ?_ ?_).mpr ⟨?_, ?_⟩
  · rw [hmask]
    exact ⟨by decide, by decide⟩
  · rw [hbase]
    decide
  · decide
  · rw [hhead]
    decide
  · rw [hhead, hmask]
    decide +kernel
  · rw [hhead]
    decide
  · rw [hhead, show (3 : Word) - (2 : Nat) = 1 by decide, hcell₃, hcell₁]
    decide

private def oneStep : ScriptArgs := .over fun a => if a = 0x20000001 then 1 else 0

/-- The job plays its first byte and is paused for one byte: the pause walks over the
second, which steps X, and comes back over the first, which does not. -/
theorem retraces_false : ¬∀ (args : ScriptArgs) (c : Config Label) (n k : Nat)
    (deadStop fifoIn lead₁ lead₂ : Word) (accelerate : Bool),
    System.Reachable Config.host (loadSdmaScript args) c → c.BetweenBytes → IsMask k c.m.r4 →
    c.m.r6 ≠ 0 → 0 < n → n + (fifoIn - c.m.word 28).toNat ≤ 2 ^ k → n ≤ (c.m.word 27).toNat →
    (∀ j < n, (c.m.word 28 - (j : Word)) &&& c.m.r4 ≠ deadStop &&& c.m.r4) →
      Retraces c n deadStop fifoIn lead₁ lead₂ accelerate := by
  intro h
  let paused := System.execute Config.host [.start 5 false false 0, .tick 200, .tick 200]
    (loadSdmaScript oneStep)
  have hrun : paused.map (fun r => (r.2.m.r4, r.2.m.r6, r.2.m.word 28, r.2.m.word 27,
      r.2.m.player.cell 1, r.2.m.player.cell 0)) =
        some (0xFFFFF, 0x20000000, 1, 1, 1, 0) := by decide +kernel
  obtain ⟨r, hexec, hout⟩ := Option.map_eq_some_iff.mp hrun
  simp only [Prod.mk.injEq] at hout
  obtain ⟨hmask, hbase, hhead, hbytes, hcell₁, hcell₀⟩ := hout
  have hb : r.2.BetweenBytes := by
    refine .inl (System.execute_invariant (I := fun c => ∃ ph : Phase, ph.Waits c) ?_
      ⟨.boot, waits_load oneStep⟩ hexec)
    intro c a q ⟨ph, hw⟩ hstep
    exact waits_of_host hw hstep
  have hring : IsMask 20 r.2.m.r4 := by
    rw [hmask]
    exact ⟨by decide, by decide⟩
  have hnz : r.2.m.r6 ≠ 0 := by
    rw [hbase]
    decide
  have hfit : 1 + ((5 : Word) - r.2.m.word 28).toNat ≤ 2 ^ 20 := by
    rw [hhead]
    decide
  have hroom (j : Nat) (hj : j < 1) :
      (r.2.m.word 28 - (j : Word)) &&& r.2.m.r4 ≠ 0xFFFFFFFF &&& r.2.m.r4 := by
    obtain rfl := Nat.lt_one_iff.mp hj
    rw [Nat.cast_zero, sub_zero, hhead, hmask]
    decide
  have hback := h oneStep r.2 1 20 0xFFFFFFFF 5 1 1 true ⟨_, _, hexec⟩ hb hring hnz
    Nat.one_pos hfit (by rw [hbytes]; decide) hroom
  have hsame := ((retraces_iff_sameSteps hb hring hnz Nat.one_pos hfit hroom).mp hback).2
  have hhead' : r.2.m.player.head = 1 := hhead
  rw [hhead', Nat.cast_one, sub_self, hcell₁, hcell₀] at hsame
  exact absurd hsame (by decide)

end Glowforge.Sdma
