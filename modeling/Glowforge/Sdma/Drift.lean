import Glowforge.Foundation.Tape
import Glowforge.Sdma.Retrace

/-! What a job's pauses do to the position. A run that turns plays the byte under its head
first in either direction, so a turn puts in or leaves out that byte's step; nothing else
parts the position from the path on the ring, whatever runs, pauses and resumes there were. -/
namespace Glowforge.Sdma
open Foundation Player

inductive Axis where
  | x
  | y
  | z
  deriving DecidableEq, Repr

namespace Axis

def delta : Axis → Word → Word
  | .x => xDelta
  | .y => yDelta
  | .z => zDelta

def position : Axis → Counters → Word
  | .x => Counters.x
  | .y => Counters.y
  | .z => Counters.z

def step (a : Axis) (cell : Word → Byte) (i : Word) : Word := byteStep a.delta (cell i)

/-- The same along the whole way that the head can go. -/
def path (a : Axis) (cell : Word → Byte) (k : ℤ) : Word := a.step cell (BitVec.ofInt 32 k)

end Axis

theorem consume_position (a : Axis) (p : Player) :
    a.position p.consume.2.counters = a.position p.counters + p.step a.delta p.pulse := by
  rw [consume_counters]
  cases a <;> rfl

theorem park_counters (p : Player) : p.park.2.counters = p.counters := by
  unfold park
  simp only
  split
  · split <;> rfl
  · rfl

/-- The player reads a tape: its ring, laid out along the way. -/
structure OnTape (a : Axis) (cell : Word → Byte) (p : Player) (h : Head Word) : Prop where
  cell : p.cell = cell
  head : p.head = BitVec.ofInt 32 h.pos
  position : a.position p.counters = h.sum
  dir : p.dir = 0 ∨ p.dir = if h.back then 0xFFFFFFFF else 1

namespace OnTape

variable {a : Axis} {cell : Word → Byte} {p p' : Player} {h : Head Word}

theorem backward (ht : OnTape a cell p h) (hmoving : p.dir ≠ 0) : p.backward = h.back := by
  have hdir := ht.dir.resolve_left hmoving
  unfold Player.backward
  rw [hdir]
  cases h.back <;> decide

theorem consume (ht : OnTape a cell p h) (hmoving : p.dir ≠ 0) :
    OnTape a cell p.consume.2.settle (h.advance (a.path cell)) := by
  have hdir := ht.dir.resolve_left hmoving
  have hback := ht.backward hmoving
  have hstep : p.step a.delta p.pulse =
      if h.back then -a.path cell h.pos else a.path cell h.pos := by
    have hpulse : p.pulse = cell (BitVec.ofInt 32 h.pos) := by
      rw [← ht.cell, ← ht.head]
      rfl
    rw [Player.step, hback, hpulse]
    rfl
  have hhead : p.consume.2.settle.head = p.head + p.dir := consume_head p
  have hposition : a.position p.consume.2.settle.counters = h.sum + p.step a.delta p.pulse :=
    (consume_position a p).trans (by rw [ht.position])
  refine ⟨?_, ?_, ?_, ?_⟩
  · rw [← ht.cell]
    exact (cell_of_setup (consume_setup p)).2
  · rw [hhead, ht.head, hdir]
    unfold Head.advance
    cases h.back <;> simp only [if_true, Bool.false_eq_true, if_false]
    · rw [BitVec.ofInt_add]
      rfl
    · rw [sub_eq_add_neg, BitVec.ofInt_add]
      rfl
  · rw [hposition, hstep]
    unfold Head.advance
    cases h.back <;> simp only [if_true, Bool.false_eq_true, if_false, sub_eq_add_neg]
  · rw [Head.advance_back, ← hdir]
    exact .inr (consume_dir p)

theorem drains (ht : OnTape a cell p h) {n : Nat} {es : List Event} {ph : Phase}
    (hdrains : Drains n p es ph p') : OnTape a cell p' ((Head.advance (a.path cell))^[n] h) := by
  induction hdrains generalizing h with
  | @park p hidle =>
      refine ⟨?_, ?_, ?_, .inl (park_dir p)⟩
      · rw [← ht.cell]
        exact (cell_of_setup (park_setup p)).2
      · rw [park_head]
        exact ht.head
      · rw [park_counters]
        exact ht.position
  | @last p hbusy hlast => exact ht.consume (not_idle_iff.mp hbusy).1
  | @more n p p' es ph hbusy hmore rest ih => exact ih (ht.consume (not_idle_iff.mp hbusy).1)

theorem tick (ht : OnTape a cell p h) {n : Nat} {es : List Event} {ph ph' : Phase}
    (htick : Tick n ph p es ph' p') : OnTape a cell p' ((Head.advance (a.path cell))^[n] h) := by
  cases htick with
  | restart _ => exact ⟨ht.cell, ht.head, ht.position, ht.dir⟩
  | play hdrains => exact ht.drains hdrains

theorem start (ht : OnTape a cell p h) (tail : Word) (backward accelerate : Bool) (numSteps : Word) :
    OnTape a cell (p.start tail backward accelerate numSteps) (h.turn backward) :=
  ⟨ht.cell, ht.head, ht.position, .inr rfl⟩

end OnTape

/-- What the host may do that leaves the ring as it is. -/
def HostAction.keepsRing : HostAction → Bool
  | .tick _ | .start _ _ _ _ | .publishTail _ | .setMotorLock _ => true
  | .clear _ _ | .store _ _ => false

def HostAction.direction (back : Bool) : HostAction → Bool
  | .start _ backward _ _ => backward
  | _ => back

/-- What the turns of a session put into the position along an axis: of each, the step of the
byte under the head. -/
def turnSteps (a : Axis) (cell : Word → Byte) : Bool → List HostAction → Config Label → Word
  | _, [], _ => 0
  | back, action :: actions, c =>
      match c.host action with
      | none => 0
      | some r =>
          Head.turnCost back (action.direction back) (a.step cell (c.m.word 28)) +
            turnSteps a cell (action.direction back) actions r.2

theorem OnTape.host {a : Axis} {cell : Word → Byte} {h : Head Word} {ph : Phase} {c : Config Label}
    {action : HostAction} {r : List Event × Config Label} (hw : ph.Waits c)
    (hkeeps : action.keepsRing = true) (ht : OnTape a cell c.m.player h)
    (hstep : c.host action = some r) :
    ∃ h', OnTape a cell r.2.m.player h' ∧ h'.back = action.direction h.back ∧
      (h'.pos - h.pos).natAbs ≤ (reads r.1).length ∧
      h'.excess (a.path cell) = h.excess (a.path cell) +
        Head.turnCost h.back (action.direction h.back) (a.path cell h.pos) := by
  cases action with
  | tick fuel =>
      obtain ⟨n, ph', htick, -⟩ := tick_of_exec hw hstep
      refine ⟨_, ht.tick htick, Head.iterate_back .., ?_, ?_⟩
      · rw [Head.iterate_pos, htick.walked.reads, cells, List.length_map, List.length_range]
        cases h.back <;> simp
      · rw [Head.excess_iterate]
        simp [Head.turnCost, HostAction.direction]
  | start tail backward accelerate numSteps =>
      cases hstep
      refine ⟨h.turn backward, ?_, rfl, by simp [Head.turn], Head.excess_turn ..⟩
      rw [player_start]
      exact ht.start tail backward accelerate numSteps
  | publishTail tail =>
      cases hstep
      refine ⟨h, ?_, rfl, by simp, by simp [Head.turnCost, HostAction.direction]⟩
      rw [player_publishTail]
      exact ⟨ht.cell, ht.head, ht.position, ht.dir⟩
  | setMotorLock bits =>
      cases hstep
      refine ⟨h, ?_, rfl, by simp, by simp [Head.turnCost, HostAction.direction]⟩
      rw [player_setMotorLock]
      exact ⟨ht.cell, ht.head, ht.position, ht.dir⟩
  | clear data position => cases hkeeps
  | store addr byte => cases hkeeps

theorem OnTape.session {a : Axis} {cell : Word → Byte} {h : Head Word} {ph : Phase}
    {c : Config Label} {actions : List HostAction} {r : List Event × Config Label}
    (hw : ph.Waits c) (hkeeps : ∀ action ∈ actions, action.keepsRing = true)
    (ht : OnTape a cell c.m.player h) (hexec : System.execute Config.host actions c = some r) :
    ∃ h', OnTape a cell r.2.m.player h' ∧ h'.back = actions.foldl HostAction.direction h.back ∧
      (h'.pos - h.pos).natAbs ≤ (reads r.1).length ∧
      h'.excess (a.path cell) = h.excess (a.path cell) + turnSteps a cell h.back actions c := by
  induction actions generalizing ph c h r with
  | nil =>
      cases hexec
      exact ⟨h, ht, rfl, by simp, (add_zero _).symm⟩
  | cons action actions ih =>
      obtain ⟨r₁, r₂, hfirst, hrest, rfl⟩ := System.execute_cons hexec
      obtain ⟨ph₁, hw₁⟩ := waits_of_host hw hfirst
      obtain ⟨h₁, ht₁, hback₁, hpos₁, hexcess₁⟩ := ht.host hw (hkeeps action List.mem_cons_self) hfirst
      obtain ⟨h₂, ht₂, hback₂, hpos₂, hexcess₂⟩ :=
        ih hw₁ (fun b hb => hkeeps b (List.mem_cons_of_mem action hb)) ht₁ hrest
      refine ⟨h₂, ht₂, ?_, ?_, ?_⟩
      · rw [hback₂, hback₁, List.foldl_cons]
      · rw [reads_append, List.length_append]
        omega
      · have hcell : a.step cell (c.m.word 28) = a.path cell h.pos := by
          have hhead : c.m.word 28 = BitVec.ofInt 32 h.pos := ht.head
          rw [hhead]
          rfl
        rw [hexcess₂, hexcess₁, hback₁, turnSteps, hfirst, hcell]
        simp only
        rw [add_assoc]

/-- Over any session that leaves the ring alone, the position along an axis has changed by the
steps of the cells that the head has put behind it, and by those of its turns. -/
theorem position_after_turns {args : ScriptArgs} {c : Config Label}
    (hreach : System.Reachable Config.host (loadSdmaScript args) c) (a : Axis) {back : Bool}
    (hdir : c.m.word 30 = 0 ∨ c.m.word 30 = if back then 0xFFFFFFFF else 1) {k : ℤ}
    (hhead : c.m.word 28 = BitVec.ofInt 32 k) {actions : List HostAction}
    (hkeeps : ∀ action ∈ actions, action.keepsRing = true) {r : List Event × Config Label}
    (hexec : System.execute Config.host actions c = some r) :
    ∃ k' : ℤ, r.2.m.word 28 = BitVec.ofInt 32 k' ∧ (k' - k).natAbs ≤ (reads r.1).length ∧
      a.position r.2.m.player.counters = a.position c.m.player.counters +
        (primitive (a.path c.m.player.cell)
            (Head.edge (actions.foldl HostAction.direction back) k') -
          primitive (a.path c.m.player.cell) (Head.edge back k)) +
        turnSteps a c.m.player.cell back actions c := by
  obtain ⟨ph, hw⟩ := waits_host_reachable hreach
  have ht : OnTape a c.m.player.cell c.m.player ⟨k, a.position c.m.player.counters, back⟩ :=
    ⟨rfl, hhead, rfl, hdir⟩
  obtain ⟨h', ht', hback, hpos, hexcess⟩ := ht.session hw hkeeps hexec
  refine ⟨h'.pos, ht'.head, hpos, ?_⟩
  unfold Head.excess at hexcess
  rw [ht'.position, ← hback, sub_eq_iff_eq_add.mp hexcess]
  abel

/-- The first run goes back, on a ring of X steps. -/
private def backFirst : List HostAction := [.start 0xFFFFFFFE true false 0, .tick 400, .tick 400]

private def allSteps : ScriptArgs := .over fun _ => 1

theorem position_after_turns_pause :
    ∃ r, System.execute Config.host backFirst (loadSdmaScript allSteps) = some r ∧
      ∃ k' : ℤ, r.2.m.word 28 = BitVec.ofInt 32 k' ∧ (k' - 0).natAbs ≤ (reads r.1).length ∧
        Axis.x.position r.2.m.player.counters = Axis.x.position (loadSdmaScript allSteps).m.player.counters +
          (primitive (Axis.x.path (loadSdmaScript allSteps).m.player.cell)
              (Head.edge (backFirst.foldl HostAction.direction false) k') -
            primitive (Axis.x.path (loadSdmaScript allSteps).m.player.cell) (Head.edge false 0)) +
          turnSteps .x (loadSdmaScript allSteps).m.player.cell false backFirst (loadSdmaScript allSteps) := by
  have hsome : (System.execute Config.host backFirst (loadSdmaScript allSteps)).isSome = true := by decide +kernel
  obtain ⟨r, hr⟩ := Option.isSome_iff_exists.mp hsome
  have hdir : (loadSdmaScript allSteps).m.word 30 = 0 ∨
      (loadSdmaScript allSteps).m.word 30 = if false then 0xFFFFFFFF else 1 := by
    decide +kernel
  have hhead : (loadSdmaScript allSteps).m.word 28 = BitVec.ofInt 32 0 := by decide +kernel
  exact ⟨r, hr, position_after_turns (System.Reachable.refl _) .x hdir hhead (by decide) hr⟩

end Glowforge.Sdma
