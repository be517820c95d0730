import Glowforge.Cnc.Driver
import Glowforge.Sdma.LaserGate
import Glowforge.Sdma.Retrace

/-! The step counters against the pins: over the words the script writes to the GPIO
register, each counter moves by the rising edges of each step pin of its axis, signed by
the direction pin. -/
namespace Glowforge.Cnc
open Foundation Sdma Player

/-- A step pin and its direction pin by their bits in the GPIO word, and the level of the
direction pin that counts up. -/
structure StepPin where
  step : Nat
  dir : Nat
  up : Bool
  deriving DecidableEq, Repr

inductive Axis where
  | x
  | y
  | z
  deriving DecidableEq, Repr

namespace Axis

def stepPins : Axis → List StepPin
  | .x => [⟨22, 19, true⟩]
  | .y => [⟨20, 18, false⟩, ⟨29, 28, true⟩]
  | .z => [⟨21, 17, true⟩]

def register : Axis → Word
  | .x => 24
  | .y => 25
  | .z => 26

def counter : Axis → Player → Word
  | .x, p => p.x
  | .y, p => p.y
  | .z, p => p.z

theorem counter_player (a : Axis) (m : Machine) : a.counter m.player = m.word a.register := by
  cases a <;> rfl

def delta : Axis → Word → Word
  | .x => xDelta
  | .y => yDelta
  | .z => zDelta

def steps : Axis → Word → Bool
  | .x, b => bit b 0
  | .y, b => bit b 2
  | .z, b => bit b 5

def plus : Axis → Word → Bool
  | .x, b => !bit b 1
  | .y, b => bit b 3
  | .z, b => bit b 6

end Axis

def stepMask : Word := 0x20700000

def stepBits : List Nat := [22, 20, 29, 21]

def dirBits : List Nat := [19, 18, 28, 17]

def stepLow (w : Word) : Prop := ∀ n ∈ stepBits, bit w n = false

instance (w : Word) : Decidable (stepLow w) := inferInstanceAs (Decidable (∀ n ∈ _, _))

def ofStepBits (w : Word) : Prop := w &&& ~~~stepMask = 0

instance (w : Word) : Decidable (ofStepBits w) := inferInstanceAs (Decidable (_ = _))

/-- `cnc_set_motor_lock`: the bits of the step pins to hold, for the motors locked. -/
def cncSetMotorLock (motorLockBits : Word) : Word :=
  let lockVal := if bit motorLockBits 0 then raise 0#32 22 else 0#32
  let lockVal := if bit motorLockBits 1 then raise lockVal 20 else lockVal
  let lockVal := if bit motorLockBits 2 then raise lockVal 29 else lockVal
  if bit motorLockBits 3 then raise lockVal 21 else lockVal

theorem ofStepBits_cncSetMotorLock (motorLockBits : Word) :
    ofStepBits (cncSetMotorLock motorLockBits) := by
  unfold cncSetMotorLock
  cases bit motorLockBits 0 <;> cases bit motorLockBits 1 <;> cases bit motorLockBits 2 <;>
    cases bit motorLockBits 3 <;> decide

/-! Edges. -/

def rises (n : Nat) (u v : Word) : Bool := !bit u n && bit v n

namespace StepPin

/-- The rising edges of the pin over the words after `u`, each counted by the direction pin
at the edge. -/
def edges (s : StepPin) : Word → List Word → Word
  | _, [] => 0
  | u, v :: ws =>
      (if rises s.step u v then (if bit v s.dir = s.up then 1 else -1) else 0) + s.edges v ws

/-- At each rising edge of the pin the direction pins have been at their value for a word. -/
def Settled (s : StepPin) : Word → List Word → Prop
  | _, [] => True
  | u, v :: ws =>
      (rises s.step u v = true → ∀ n ∈ dirBits, bit u n = bit v n) ∧ s.Settled v ws

/-- Over these words, whatever came before, the pin moves the counter from `n` to `n'`. -/
structure Moves (s : StepPin) (lock n n' : Word) (ws : List Word) : Prop where
  edges : bit lock s.step = false → ∀ u, n' = n + s.edges u ws
  settled : ∀ u, s.Settled u ws
  locked : bit lock s.step = true → ∀ w ∈ ws, bit w s.step = false

namespace Moves

variable {s : StepPin} {lock n n' n'' : Word} {ws vs : List Word}

theorem nil (s : StepPin) (lock n : Word) : s.Moves lock n n [] where
  edges := fun _ _ => (add_zero n).symm
  settled := fun _ => trivial
  locked := fun _ _ hw => absurd hw List.not_mem_nil

theorem append (h : s.Moves lock n n' ws) (h' : s.Moves lock n' n'' vs) :
    s.Moves lock n n'' (ws ++ vs) where
  edges := by
    intro hfree u
    rw [h'.edges hfree (ws.getLastD u), h.edges hfree u, add_assoc]
    congr 1
    clear h h'
    induction ws generalizing u with
    | nil => exact zero_add _
    | cons w ws ih =>
        rw [List.cons_append, StepPin.edges, StepPin.edges, add_assoc, List.getLastD_cons, ih]
  settled := by
    intro u
    have hws := h.settled u
    clear h
    induction ws generalizing u with
    | nil => exact h'.settled u
    | cons w ws ih => exact ⟨hws.1, ih w hws.2⟩
  locked := by
    intro hlocked w hw
    rcases List.mem_append.mp hw with hw | hw
    · exact h.locked hlocked w hw
    · exact h'.locked hlocked w hw

theorem low {w : Word} (hlow : bit w s.step = false) : s.Moves lock n n [w] where
  edges := by
    intro _ u
    have hflat : rises s.step u w = false := by rw [rises, hlow, Bool.and_false]
    simp [StepPin.edges, hflat]
  settled := by
    intro u
    refine ⟨?_, trivial⟩
    rw [rises, hlow, Bool.and_false]
    exact fun h => absurd h Bool.false_ne_true
  locked := by
    intro _ v hv
    rwa [List.mem_singleton.mp hv]

theorem pulse {w₁ w₂ w₃ : Word} {steps plus : Bool} (h₁ : bit w₁ s.step = false)
    (h₂ : bit w₂ s.step = (steps && !bit lock s.step)) (h₃ : bit w₃ s.step = false)
    (hdir : ∀ k ∈ dirBits, bit w₁ k = bit w₂ k) (hplus : bit w₂ s.dir = (plus == s.up)) :
    s.Moves lock n (n + if steps then (if plus then 1 else -1) else 0) [w₁, w₂, w₃] where
  edges := by
    intro hfree u
    have hflat : rises s.step u w₁ = false := by rw [rises, h₁, Bool.and_false]
    have hflat' : rises s.step w₂ w₃ = false := by rw [rises, h₃, Bool.and_false]
    have hrise : rises s.step w₁ w₂ = steps := by
      rw [rises, h₁, h₂, hfree]
      simp
    have hup : (bit w₂ s.dir = s.up) ↔ plus = true := by
      rw [hplus]
      cases plus <;> cases s.up <;> decide
    simp [StepPin.edges, hflat, hflat', hrise, hup]
  settled := by
    intro u
    refine ⟨?_, fun _ => hdir, ?_, trivial⟩
    · rw [rises, h₁, Bool.and_false]
      exact fun h => absurd h Bool.false_ne_true
    · rw [rises, h₃, Bool.and_false]
      exact fun h => absurd h Bool.false_ne_true
  locked := by
    intro hlocked w hw
    rw [hlocked, Bool.not_true, Bool.and_false] at h₂
    simp only [List.mem_cons, List.not_mem_nil, or_false] at hw
    rcases hw with rfl | rfl | rfl
    · exact h₁
    · exact h₂
    · exact h₃

end Moves

end StepPin

/-! Bits of the words. -/

section Bits

variable {a : Axis} {s : StepPin} {b w : Word} {n : Nat}

theorem Axis.mem_bits (hs : s ∈ a.stepPins) : s.step ∈ stepBits ∧ s.dir ∈ dirBits := by
  have hall : ∀ s ∈ a.stepPins, s.step ∈ stepBits ∧ s.dir ∈ dirBits := by
    cases a <;> decide
  exact hall s hs

theorem stepLow.pin (h : stepLow w) (hs : s ∈ a.stepPins) : bit w s.step = false :=
  h s.step (Axis.mem_bits hs).1

theorem bit_dirPins (b w : Word) (hn : n ∉ dirBits) : bit (dirPins b w) n = bit w n := by
  simp only [dirBits, List.mem_cons, List.not_mem_nil, or_false, not_or] at hn
  obtain ⟨h19, h18, h28, h17⟩ := hn
  unfold dirPins zDirPin yDirPins xDirPin
  split <;> split <;> split <;> simp [h19, h18, h28, h17]

theorem bit_stepPins (b w : Word) (hn : n ∈ dirBits) : bit (stepPins b w) n = bit w n := by
  simp only [dirBits, List.mem_cons, List.not_mem_nil, or_false] at hn
  unfold stepPins laserPins zStepPin yStepPins xStepPin
  rcases hn with rfl | rfl | rfl | rfl <;> split <;> split <;> split <;> split <;> simp

theorem stepLow_dirPins (h : stepLow w) (b : Word) : stepLow (dirPins b w) := by
  intro n hn
  have hdir : ∀ n ∈ stepBits, n ∉ dirBits := by decide
  rw [bit_dirPins b w (hdir n hn)]
  exact h n hn

theorem stepLow_clearPins (w : Word) : stepLow (clearPins w) := by
  intro n hn
  simp only [stepBits, List.mem_cons, List.not_mem_nil, or_false] at hn
  unfold clearPins
  rcases hn with rfl | rfl | rfl | rfl <;> simp

theorem stepLow_parkedPins (w : Word) : stepLow (parkedPins w) := stepLow_clearPins _

theorem bit_dirPins_dir (hs : s ∈ a.stepPins) (b w : Word) :
    bit (dirPins b w) s.dir = (a.plus b == s.up) := by
  unfold dirPins zDirPin yDirPins xDirPin
  cases a <;> simp only [Axis.plus, Axis.stepPins, List.mem_cons, List.not_mem_nil, or_false] at hs ⊢
  · subst hs
    cases bit b 1 <;> cases bit b 3 <;> cases bit b 6 <;> simp
  · rcases hs with rfl | rfl <;> cases bit b 3 <;> cases bit b 6 <;> simp
  · subst hs
    cases bit b 6 <;> simp

theorem bit_stepPins_step (hs : s ∈ a.stepPins) (b w : Word) :
    bit (stepPins b w) s.step = (bit w s.step || a.steps b) := by
  unfold stepPins laserPins zStepPin yStepPins xStepPin
  cases a <;> simp only [Axis.steps, Axis.stepPins, List.mem_cons, List.not_mem_nil, or_false] at hs ⊢
  · subst hs
    cases bit b 0 <;> cases bit b 2 <;> cases bit b 4 <;> cases bit b 5 <;> simp
  · rcases hs with rfl | rfl <;> cases bit b 0 <;> cases bit b 2 <;> cases bit b 4 <;>
      cases bit b 5 <;> simp
  · subst hs
    cases bit b 0 <;> cases bit b 2 <;> cases bit b 4 <;> cases bit b 5 <;> simp

theorem bit_of_ofStepBits (h : ofStepBits w) (hn : n ∈ dirBits) : bit w n = false := by
  have hlt : ∀ n ∈ dirBits, n < 32 ∧ bit stepMask n = false := by decide
  obtain ⟨hbound, hclear⟩ := hlt n hn
  have hnone : bit (w &&& ~~~stepMask) n = false := by
    rw [h]
    exact bit_zero n
  rw [bit_and, bit_not _ _ hbound, hclear] at hnone
  simpa using hnone

theorem bit_inhibit (h : w = 0 ∨ w = laserInhibitBits) (hn : n ∈ stepBits ++ dirBits) :
    bit w n = false := by
  have hlaser : ∀ n ∈ stepBits ++ dirBits, bit laserInhibitBits n = false := by decide
  rcases h with rfl | rfl
  · exact bit_zero n
  · exact hlaser n hn

end Bits

/-! One byte, one tick. -/

/-- What the pins go by, as every tick leaves it. -/
structure Steppable (p : Player) : Prop where
  pins : stepLow p.pins
  flags : stepLow p.flags
  lock : ofStepBits p.lock
  inhibit : p.inhibit = 0 ∨ p.inhibit = laserInhibitBits

theorem motion_moves {p : Player} (h : Steppable p) {a : Axis} {s : StepPin}
    (hs : s ∈ a.stepPins) (b : Word) :
    s.Moves p.lock (a.counter p) (a.counter (p.motion b).2)
      [dirPins b p.pins, stepPins b (dirPins b p.pins) &&& ~~~p.lock &&& ~~~p.inhibit,
        clearPins (stepPins b (dirPins b p.pins) &&& ~~~p.lock &&& ~~~p.inhibit)] := by
  obtain ⟨hstepmem, hdirmem⟩ := Axis.mem_bits hs
  have hbound : ∀ k ∈ stepBits ++ dirBits, k < 32 := by decide
  have hstep := List.mem_append_left dirBits hstepmem
  have hkeep (k : Nat) (hk : k ∈ dirBits) : bit (dirPins b p.pins) k =
      bit (stepPins b (dirPins b p.pins) &&& ~~~p.lock &&& ~~~p.inhibit) k := by
    have hmem := List.mem_append_right stepBits hk
    rw [bit_and, bit_and, bit_not _ _ (hbound k hmem), bit_not _ _ (hbound k hmem),
      bit_of_ofStepBits h.lock hk, bit_inhibit h.inhibit hmem, bit_stepPins _ _ hk]
    simp
  have hlow := stepLow_dirPins h.pins b
  have hcounter : a.counter (p.motion b).2 =
      a.counter p + if a.steps b then (if a.plus b then 1 else -1) else 0 := by
    cases a
    · cases hplus : bit b 1 <;>
        simp [Axis.counter, motion, xDelta, Axis.steps, Axis.plus, hplus]
    · rfl
    · rfl
  rw [hcounter]
  apply StepPin.Moves.pulse (hlow.pin hs) _ ((stepLow_clearPins _).pin hs) hkeep
  · rw [← hkeep s.dir hdirmem, bit_dirPins_dir hs]
  · rw [bit_and, bit_and, bit_not _ _ (hbound _ hstep), bit_not _ _ (hbound _ hstep),
      bit_inhibit h.inhibit hstep, bit_stepPins_step hs, hlow.pin hs]
    simp

theorem stepLow_raise {w : Word} (h : stepLow w) {k : Nat} (hk : k < 3) :
    stepLow (raise w k) := by
  intro n hn
  have habove : ∀ n ∈ stepBits, 3 ≤ n := by decide
  have hne : n ≠ k := by
    have := habove n hn
    omega
  rw [bit_raise _ _ _ (by omega), h n hn]
  simp [hne]

theorem stepLow_lower {w : Word} (h : stepLow w) {k : Nat} (hk : k < 3) :
    stepLow (lower w k) := by
  intro n hn
  rw [bit_lower _ _ _ (by omega), h n hn]
  rfl

theorem stepLow_duty (b : Word) : stepLow (b &&& 0x7f) := by
  intro n hn
  have hclear : ∀ n ∈ stepBits, bit (0x7f : Word) n = false := by decide
  rw [bit_and, hclear n hn, Bool.and_false]

theorem moves_write {w : Word} (hlow : stepLow w) {a : Axis} {s : StepPin} (hs : s ∈ a.stepPins)
    (lock n gpio addr : Word) : s.Moves lock n n (Driver.writesTo gpio [.write addr w]) := by
  unfold Driver.writesTo
  by_cases haddr : addr = gpio
  · simp only [List.filterMap_cons, if_pos haddr, List.filterMap_nil]
    exact .low (hlow.pin hs)
  · simp only [List.filterMap_cons, if_neg haddr, List.filterMap_nil]
    exact .nil s lock n

theorem writesTo_append (gpio : Word) (es fs : List Event) :
    Driver.writesTo gpio (es ++ fs) = Driver.writesTo gpio es ++ Driver.writesTo gpio fs :=
  List.filterMap_append

namespace Steppable

variable {p : Player} (h : Steppable p)

include h

theorem actOn : Steppable p.actOn.2 := by
  unfold Player.actOn
  split
  · unfold power
    split
    · exact ⟨h.pins, h.flags, h.lock, h.inhibit⟩
    · split
      · exact ⟨h.pins, stepLow_raise h.flags (by decide), h.lock, h.inhibit⟩
      · exact ⟨h.pins, stepLow_raise (stepLow_raise h.flags (by decide)) (by decide), h.lock,
          h.inhibit⟩
  · exact ⟨stepLow_clearPins _, stepLow_lower h.flags (by decide), h.lock, h.inhibit⟩

theorem endbyte : Steppable p.endbyte.2 := by
  unfold Player.endbyte
  simp only
  split
  · exact ⟨h.pins, h.flags, h.lock, h.inhibit⟩
  · split
    · exact ⟨h.pins, h.flags, h.lock, .inl rfl⟩
    · exact ⟨h.pins, h.flags, h.lock, h.inhibit⟩

theorem settle : Steppable p.settle :=
  ⟨h.pins, stepLow_lower h.flags (by decide), h.lock, h.inhibit⟩

theorem consume : Steppable p.consume.2.settle := h.actOn.endbyte.settle

theorem park : Steppable p.park.2 := by
  unfold Player.park
  simp only
  split
  · split <;> exact ⟨stepLow_parkedPins _, h.flags, h.lock, h.inhibit⟩
  · exact ⟨stepLow_parkedPins _, h.flags, h.lock, h.inhibit⟩

variable {a : Axis} {s : StepPin} (hs : s ∈ a.stepPins)

include hs in
theorem actOn_moves :
    s.Moves p.lock (a.counter p) (a.counter p.actOn.2) (Driver.writesTo p.gpio p.actOn.1) := by
  unfold Player.actOn
  split
  · obtain ⟨d, f, hpower⟩ := power_cases p (p.pulse.zeroExtend 32)
    have hsame : a.counter (p.power (p.pulse.zeroExtend 32)).2 = a.counter p := by
      rw [hpower]
      cases a <;> rfl
    rw [hsame]
    unfold power
    split
    · exact .nil s _ _
    · split
      · exact .nil s _ _
      · exact moves_write (stepLow_duty _) hs _ _ _ _
  · have hwords : Driver.writesTo p.gpio (p.motion p.played).1 =
        [dirPins p.played p.pins,
          stepPins p.played (dirPins p.played p.pins) &&& ~~~p.lock &&& ~~~p.inhibit,
          clearPins (stepPins p.played (dirPins p.played p.pins) &&& ~~~p.lock &&&
            ~~~p.inhibit)] := by
      simp [Driver.writesTo, motion]
    rw [hwords]
    exact motion_moves h hs p.played

include hs in
theorem consume_moves : s.Moves p.lock (a.counter p) (a.counter p.consume.2)
    (Driver.writesTo p.gpio p.consume.1) := by
  obtain ⟨w, i, hend, hev⟩ := endbyte_cases p.actOn.2
  have hcounter : a.counter p.consume.2 = a.counter p.actOn.2 := by
    rw [Player.consume, hend]
    cases a <;> rfl
  have hquiet : Driver.writesTo p.gpio p.actOn.2.endbyte.1 = [] := by
    rcases hev with ⟨hnil, -⟩ | hnotify
    · rw [hnil]
      rfl
    · rw [hnotify]
      rfl
  have hwords : Driver.writesTo p.gpio p.consume.1 = Driver.writesTo p.gpio p.actOn.1 := by
    have hread : Driver.writesTo p.gpio p.consume.1 =
        Driver.writesTo p.gpio (p.actOn.1 ++ p.actOn.2.endbyte.1) := rfl
    rw [hread, writesTo_append, hquiet, List.append_nil]
  rw [hcounter, hwords]
  exact h.actOn_moves hs

omit h in
include hs in
theorem park_moves : s.Moves p.lock (a.counter p) (a.counter p.park.2)
    (Driver.writesTo p.gpio p.park.1) := by
  have hcounter : a.counter p.park.2 = a.counter p := by
    unfold Player.park
    simp only
    split
    · split <;> cases a <;> rfl
    · cases a <;> rfl
  have hpins := moves_write (stepLow_parkedPins p.pins) hs p.lock (a.counter p) p.gpio p.gpio
  have hone : stepLow (1 : Word) := by decide
  have hmail := moves_write hone hs p.lock (a.counter p) p.gpio p.mailbox
  have hquiet : s.Moves p.lock (a.counter p) (a.counter p) (Driver.writesTo p.gpio [.notify 3]) :=
    .nil s _ _
  rw [hcounter]
  unfold Player.park
  simp only
  split
  · split
    · have h := hpins.append hquiet
      rwa [← writesTo_append] at h
    · exact hpins
  · have h := hpins.append (hmail.append hquiet)
    rwa [← writesTo_append, ← writesTo_append] at h

end Steppable

theorem drains_moves {n : Nat} {p p' : Player} {es : List Event} {ph : Phase}
    (h : Drains n p es ph p') (hp : Steppable p) {a : Axis} {s : StepPin} (hs : s ∈ a.stepPins) :
    s.Moves p.lock (a.counter p) (a.counter p') (Driver.writesTo p.gpio es) ∧ Steppable p' := by
  induction h with
  | park hidle => exact ⟨Steppable.park_moves hs, hp.park⟩
  | @last p hbusy hlast =>
      have hsettle : a.counter p.consume.2.settle = a.counter p.consume.2 := by
        cases a <;> rfl
      rw [hsettle]
      exact ⟨hp.consume_moves hs, hp.consume⟩
  | @more n p p' es ph hbusy hmore rest ih =>
      have hsettle : a.counter p.consume.2.settle = a.counter p.consume.2 := by
        cases a <;> rfl
      have hsetup : p.consume.2.settle.setup = p.setup := consume_setup p
      have hlock : p.consume.2.settle.lock = p.lock := congrArg Setup.lock hsetup
      have hgpio : p.consume.2.settle.gpio = p.gpio := congrArg Setup.gpio hsetup
      obtain ⟨hmoves, hp'⟩ := ih hp.consume
      rw [hlock, hgpio, hsettle] at hmoves
      rw [writesTo_append]
      exact ⟨(hp.consume_moves hs).append hmoves, hp'⟩

theorem tick_moves {n : Nat} {ph ph' : Phase} {p p' : Player} {es : List Event}
    (h : Tick n ph p es ph' p') (hp : Steppable p) {a : Axis} {s : StepPin} (hs : s ∈ a.stepPins) :
    s.Moves p.lock (a.counter p) (a.counter p') (Driver.writesTo p.gpio es) ∧ Steppable p' := by
  cases h with
  | restart hph =>
      have hone : stepLow (1 : Word) := by decide
      have hsame : a.counter { p with flags := 1, pins := 0 } = a.counter p := by
        cases a <;> rfl
      rw [hsame]
      refine ⟨moves_write hone hs _ _ _ _, ?_, hone, hp.lock, hp.inhibit⟩
      intro n _
      exact bit_zero n
  | @play n p p' es ph hdrains =>
      obtain ⟨hmoves, hp'⟩ := drains_moves hdrains hp hs
      have hack := moves_write hp.flags hs p.lock (a.counter p) p.gpio p.epit
      have hall := hack.append hmoves
      rw [← writesTo_append] at hall
      exact ⟨hall, hp'⟩

/-! Runs. -/

def locksSteps : HostAction → Prop
  | .setMotorLock bits => ofStepBits bits
  | _ => True

/-- What the host does while a count is taken: it neither sets a lock nor clears the
counters. -/
def keepsCount : HostAction → Prop
  | .setMotorLock _ => False
  | .clear _ position => position = false
  | _ => True

structure Stepping (args : ScriptArgs) (c : Config Label) : Prop where
  waits : ∃ ph : Phase, ph.Waits c
  gpio : c.m.player.gpio = args.gpioBase
  steppable : Steppable c.m.player

theorem stepping_load (args : ScriptArgs) : Stepping args (loadSdmaScript args) where
  waits := ⟨.boot, waits_load args⟩
  gpio := rfl
  steppable := by
    have hlock : (loadSdmaScript args).m.player.lock = 0 := by
      simp [loadSdmaScript, Program.goto, Machine.player, Machine.word, Machine.setWord]
    have hinhibit : (loadSdmaScript args).m.player.inhibit = 0 := by
      simp [loadSdmaScript, Program.goto, Machine.player, Machine.word, Machine.setWord]
    refine ⟨fun n _ => bit_zero n, fun n _ => bit_zero n, ?_, .inl hinhibit⟩
    rw [hlock]
    decide

theorem steppable_host {c : Config Label} {act : HostAction} {r : List Event × Config Label}
    {ph : Phase} (hw : ph.Waits c) (h : Steppable c.m.player) (hlocks : locksSteps act)
    (hstep : c.host act = some r) : Steppable r.2.m.player := by
  obtain ⟨hpins, hflags, hlock, hinhibit⟩ := h
  cases act with
  | tick fuel =>
      obtain ⟨n, ph', htick, -⟩ := tick_of_exec hw hstep
      exact (tick_moves htick ⟨hpins, hflags, hlock, hinhibit⟩ (a := .x) List.mem_cons_self).2
  | start tail backward accelerate numSteps =>
      cases hstep
      rw [player_start]
      refine ⟨hpins, hflags, hlock, ?_⟩
      cases accelerate <;> cases backward <;> first | exact .inl rfl | exact .inr rfl
  | publishTail tail =>
      cases hstep
      rw [player_publishTail]
      exact ⟨hpins, hflags, hlock, hinhibit⟩
  | clear data position =>
      cases hstep
      rw [player_clear]
      exact ⟨hpins, hflags, hlock, hinhibit⟩
  | setMotorLock bits =>
      cases hstep
      rw [player_setMotorLock]
      exact ⟨hpins, hflags, hlocks, hinhibit⟩
  | store addr b =>
      cases hstep
      exact ⟨hpins, hflags, hlock, hinhibit⟩

theorem Stepping.step {args : ScriptArgs} {c : Config Label} {act : HostAction}
    {r : List Event × Config Label} (h : Stepping args c) (hlocks : locksSteps act)
    (hstep : c.host act = some r) : Stepping args r.2 := by
  obtain ⟨ph, hw⟩ := h.waits
  exact ⟨waits_of_host hw hstep, (congrArg Wiring.gpio (wiring_of_host hw hstep)).trans h.gpio,
    steppable_host hw h.steppable hlocks hstep⟩

theorem Stepping.moves {args : ScriptArgs} {c : Config Label} {act : HostAction}
    {r : List Event × Config Label} (h : Stepping args c) (hkeeps : keepsCount act)
    (hstep : c.host act = some r) {a : Axis} {s : StepPin} (hs : s ∈ a.stepPins) :
    s.Moves c.m.player.lock (a.counter c.m.player) (a.counter r.2.m.player)
      (Driver.writesTo args.gpioBase r.1) ∧ r.2.m.player.lock = c.m.player.lock := by
  obtain ⟨ph, hw⟩ := h.waits
  cases act with
  | tick fuel =>
      obtain ⟨n, ph', htick, -⟩ := tick_of_exec hw hstep
      have hmoves := (tick_moves htick h.steppable hs).1
      rw [h.gpio] at hmoves
      exact ⟨hmoves, congrArg Setup.lock htick.setup⟩
  | start tail backward accelerate numSteps =>
      cases hstep
      rw [player_start]
      cases a <;> exact ⟨.nil s _ _, rfl⟩
  | publishTail tail =>
      cases hstep
      rw [player_publishTail]
      cases a <;> exact ⟨.nil s _ _, rfl⟩
  | clear data position =>
      cases hstep
      cases (hkeeps : position = false)
      rw [player_clear]
      cases a <;> exact ⟨.nil s _ _, rfl⟩
  | setMotorLock bits => exact hkeeps.elim
  | store addr b =>
      cases hstep
      cases a <;> exact ⟨.nil s _ _, rfl⟩

theorem locksSteps_of_keepsCount {act : HostAction} (h : keepsCount act) : locksSteps act := by
  cases act with
  | setMotorLock bits => exact h.elim
  | _ => trivial

theorem moves_run {args : ScriptArgs} {c : Config Label} {as : List HostAction}
    {r : List Event × Config Label} (h : Stepping args c) (hkeeps : ∀ act ∈ as, keepsCount act)
    (hexec : System.execute Config.host as c = some r) {a : Axis} {s : StepPin}
    (hs : s ∈ a.stepPins) :
    s.Moves c.m.player.lock (a.counter c.m.player) (a.counter r.2.m.player)
      (Driver.writesTo args.gpioBase r.1) := by
  induction as generalizing c r with
  | nil =>
      cases hexec
      exact .nil s _ _
  | cons act as ih =>
      obtain ⟨r₁, r₂, hfirst, hrest, rfl⟩ := System.execute_cons hexec
      have hact := hkeeps act List.mem_cons_self
      obtain ⟨hmoves, hlock⟩ := h.moves hact hfirst hs
      have hinv := h.step (locksSteps_of_keepsCount hact) hfirst
      have hmoves' := ih hinv (fun b hb => hkeeps b (List.mem_cons_of_mem _ hb)) hrest
      rw [hlock] at hmoves'
      rw [writesTo_append]
      exact hmoves.append hmoves'

theorem stepping_run {args : ScriptArgs} {as : List HostAction} {r : List Event × Config Label}
    (hlocks : ∀ act ∈ as, locksSteps act)
    (hexec : System.execute Config.host as (loadSdmaScript args) = some r) :
    Stepping args r.2 := by
  have hrun := System.execute_guarded (I := Stepping args) (P := fun _ => True)
    (fun c act r hinv hact hstep => ⟨hinv.step hact hstep, fun _ _ => trivial⟩)
    (stepping_load args) (System.along_of_forall hlocks _) hexec
  exact hrun.1

theorem nextByte_step {c d : Config Label} (hw : ∃ ph : Phase, ph.Waits c) {fuel : Nat}
    (h : c.nextByte fuel = some d) (a : Axis) :
    a.counter d.m.player =
      a.counter c.m.player + c.m.player.step a.delta c.m.player.pulse := by
  have hb : c.BetweenBytes := .inl hw
  by_cases hidle : c.m.player.idle
  · rw [Config.nextByte_idle hb hidle] at h
    cases h
  · obtain ⟨c', f, w, hnext, -, hp⟩ := Config.nextByte_busy hb hidle
    cases Config.nextByte_unique h hnext
    have hcount := consume_counters { c.m.player with flags := f, pins := w }
    rw [← hp] at hcount
    cases a
    · exact congrArg Counters.x hcount
    · exact congrArg Counters.y hcount
    · exact congrArg Counters.z hcount

theorem step_start (p : Player) (delta : Word → Word) (tail tail' lead lead' : Word)
    (accelerate accelerate' : Bool) :
    (p.start tail' true accelerate' lead').step delta (p.start tail' true accelerate' lead').pulse =
      -(p.start tail false accelerate lead).step delta
        (p.start tail false accelerate lead).pulse := by
  have hback : (p.start tail' true accelerate' lead').backward = true := by
    unfold Player.backward
    rw [Player.start_dir]
    decide
  have hforth : (p.start tail false accelerate lead).backward = false := by
    unfold Player.backward
    rw [Player.start_dir]
    decide
  rw [Player.step, Player.step, hback, hforth, if_pos rfl, if_neg Bool.false_ne_true]
  rfl

/-- From every reachable tick boundary, with a lock made of step bits: over the words the
script writes to the GPIO register from there on, each counter moves by the rising edges
of each free step pin of its axis, signed by the direction pin; a locked step pin is never
high; the direction pins are set a word before each edge; and from the same head a run
backward counts its first byte as the negation of a run forward. -/
theorem counters_follow_pins {args : ScriptArgs} {as bs : List HostAction}
    {r q : List Event × Config Label} (hlocks : ∀ act ∈ as, locksSteps act)
    (hexec : System.execute Config.host as (loadSdmaScript args) = some r)
    (hkeeps : ∀ act ∈ bs, keepsCount act) (hrun : System.execute Config.host bs r.2 = some q)
    {a : Axis} {s : StepPin} (hs : s ∈ a.stepPins) :
    (bit (r.2.m.word 18) s.step = false → ∀ u, q.2.m.word a.register =
      r.2.m.word a.register + s.edges u (Driver.writesTo args.gpioBase q.1)) ∧
    (bit (r.2.m.word 18) s.step = true → ∀ w ∈ Driver.writesTo args.gpioBase q.1,
      bit w s.step = false) ∧
    (∀ u, s.Settled u (Driver.writesTo args.gpioBase q.1)) ∧
    ∀ tail tail' accelerate accelerate' lead lead' fuel d d',
      (r.2.start tail false accelerate lead).nextByte fuel = some d →
      (r.2.start tail' true accelerate' lead').nextByte fuel = some d' →
      d'.m.word a.register - r.2.m.word a.register =
        -(d.m.word a.register - r.2.m.word a.register) := by
  have hinv := stepping_run hlocks hexec
  have hmoves := moves_run hinv hkeeps hrun hs
  rw [a.counter_player, a.counter_player] at hmoves
  refine ⟨hmoves.edges, hmoves.locked, hmoves.settled, ?_⟩
  intro tail tail' accelerate accelerate' lead lead' fuel d d' hd hd'
  obtain ⟨ph, hw⟩ := hinv.waits
  have hforth := nextByte_step ⟨ph, hw.start tail false accelerate lead⟩ hd a
  have hback := nextByte_step ⟨ph, hw.start tail' true accelerate' lead'⟩ hd' a
  have hsame (tail lead : Word) (backward accelerate : Bool) :
      a.counter (r.2.m.player.start tail backward accelerate lead) = r.2.m.word a.register := by
    cases a <;> rfl
  rw [player_start, hsame, a.counter_player] at hforth hback
  rw [hforth, hback, step_start r.2.m.player a.delta tail tail' lead lead' accelerate accelerate']
  simp only [add_sub_cancel_left]

private def stepping : ScriptArgs := .over fun _ => 0x65

/-- A run of two bytes with the Y1 motor locked. -/
theorem counters_follow_pins_locked :
    ∃ r q, System.execute Config.host [.setMotorLock (cncSetMotorLock 2), .start 2 false false 0]
        (loadSdmaScript stepping) = some r ∧
      System.execute Config.host [.tick 200, .tick 200, .tick 200] r.2 = some q ∧
      (∀ u, q.2.m.word 24 = r.2.m.word 24 +
        StepPin.edges ⟨22, 19, true⟩ u (Driver.writesTo stepping.gpioBase q.1)) ∧
      ∀ w ∈ Driver.writesTo stepping.gpioBase q.1, bit w 20 = false := by
  have hrun : ((System.execute Config.host
      [.setMotorLock (cncSetMotorLock 2), .start 2 false false 0]
        (loadSdmaScript stepping)).bind fun r =>
      (System.execute Config.host [.tick 200, .tick 200, .tick 200] r.2).map fun q =>
        (bit (r.2.m.word 18) 22, bit (r.2.m.word 18) 20, q.2.m.word 24)) =
      some (false, true, 2) := by decide +kernel
  obtain ⟨r, hexec, hrest⟩ := Option.bind_eq_some_iff.mp hrun
  obtain ⟨q, hticks, hseen⟩ := Option.map_eq_some_iff.mp hrest
  injection hseen with hfree hseen
  injection hseen with hlocked hcount
  have hlocks : ∀ act ∈ [HostAction.setMotorLock (cncSetMotorLock 2), .start 2 false false 0],
      locksSteps act := by
    simp only [List.forall_mem_cons, List.not_mem_nil]
    exact ⟨ofStepBits_cncSetMotorLock 2, trivial, fun _ h => h.elim⟩
  have hkeeps : ∀ act ∈ [HostAction.tick 200, .tick 200, .tick 200], keepsCount act := by
    simp only [List.forall_mem_cons, List.not_mem_nil]
    exact ⟨trivial, trivial, trivial, fun _ h => h.elim⟩
  have hx := counters_follow_pins hlocks hexec hkeeps hticks
    (a := .x) (s := ⟨22, 19, true⟩) (by decide)
  have hy := counters_follow_pins hlocks hexec hkeeps hticks
    (a := .y) (s := ⟨20, 18, false⟩) (by decide)
  exact ⟨r, q, hexec, hticks, hx.1 hfree, hy.2.1 hlocked⟩

end Glowforge.Cnc
