import Glowforge.Sdma.Script

/-! The pulse player the script implements: what one pulse byte, one parked tick
and one whole tick do to the position, the ring indices and the GPIO word. It is
stated over the script's state without its temporaries; `Glowforge.Sdma.Blocks`
proves that the script computes it. -/
namespace Glowforge.Sdma
open Foundation

/-- The script's state between instructions that matter: its fixed arguments
(r4 to r7, PDA, MDA, the mailbox address), the ring memory, the channel context
words, and the registers that survive a byte. -/
structure Player where
  mask : Word
  pwm : Word
  base : Word
  ctx : Word
  epit : Word
  gpio : Word
  mailbox : Word
  mem : Word → Byte
  lock : Word
  inhibit : Word
  x : Word
  y : Word
  z : Word
  bytes : Word
  head : Word
  tail : Word
  dir : Word
  waypoint : Word
  flags : Word
  data : Word
  pins : Word

def Machine.player (m : Machine) : Player where
  mask := m.r4
  pwm := m.r5
  base := m.r6
  ctx := m.r7
  epit := m.pda
  gpio := m.mda
  mailbox := m.word 21
  mem := m.mem
  lock := m.word 18
  inhibit := m.word 20
  x := m.word 24
  y := m.word 25
  z := m.word 26
  bytes := m.word 27
  head := m.word 28
  tail := m.word 29
  dir := m.word 30
  waypoint := m.word 31
  flags := m.r1
  data := m.r2
  pins := m.r3

def xDirPin (b w : Word) : Word :=
  if bit b 1 then lower (raise w 19) 19 else raise w 19

/-- The two Y motors face each other, so their direction pins are opposed. -/
def yDirPins (b w : Word) : Word :=
  if bit b 3 then lower (raise (raise (lower w 28) 18) 28) 18 else raise (lower w 28) 18

def zDirPin (b w : Word) : Word :=
  if bit b 6 then raise (lower w 17) 17 else lower w 17

def dirPins (b w : Word) : Word :=
  zDirPin b (yDirPins b (xDirPin b w))

def xStepPin (b w : Word) : Word :=
  if bit b 0 then raise w 22 else w

def yStepPins (b w : Word) : Word :=
  if bit b 2 then raise (raise w 20) 29 else w

def zStepPin (b w : Word) : Word :=
  if bit b 5 then raise w 21 else w

def laserPins (b w : Word) : Word :=
  if bit b 4 then raise (raise (lower (lower w 30) 31) 30) 31 else lower (lower w 30) 31

def stepPins (b w : Word) : Word :=
  laserPins b (zStepPin b (yStepPins b (xStepPin b w)))

def clearPins (w : Word) : Word :=
  lower (lower (lower (lower w 22) 20) 29) 21

/-- Position change of a motion byte: the direction bit means minus for X. -/
def xDelta (b : Word) : Word :=
  if bit b 0 then (if bit b 1 then -1 else 1) else 0

def yDelta (b : Word) : Word :=
  if bit b 2 then (if bit b 3 then 1 else -1) else 0

def zDelta (b : Word) : Word :=
  if bit b 5 then (if bit b 6 then 1 else -1) else 0

namespace Player

def backward (p : Player) : Bool := bit p.dir 31

def address (p : Player) : Word := (p.head &&& p.mask) + p.base

def pulse (p : Player) : Byte := p.mem p.address

/-- The byte as it is played: a backward run inverts the direction bits and
keeps the laser off. -/
def played (p : Player) : Word :=
  let b := p.pulse.zeroExtend 32
  if p.backward then lower (b ^^^ 0x4a) 4 else b

/-- Nothing to play: parked, no ring, or head and tail meet under the mask. -/
def idle (p : Player) : Prop :=
  p.dir = 0 ∨ p.base = 0 ∨ p.head &&& p.mask = p.tail &&& p.mask

instance (p : Player) : Decidable p.idle :=
  inferInstanceAs (Decidable (_ ∨ _ ∨ _))

theorem not_idle_iff {p : Player} :
    ¬p.idle ↔ p.dir ≠ 0 ∧ p.base ≠ 0 ∧ p.head &&& p.mask ≠ p.tail &&& p.mask := by
  rw [idle, not_or, not_or]

/-- A motion byte: direction word, then step and laser word, then step clear. -/
def motion (p : Player) (b : Word) : List Event × Player :=
  let w₁ := dirPins b p.pins
  let w₂ := stepPins b w₁ &&& ~~~p.lock &&& ~~~p.inhibit
  let w₃ := clearPins w₂
  ([.write p.gpio w₁, .write p.gpio w₂, .write p.gpio w₃],
    { p with
      pins := w₃
      data := b
      flags := lower p.flags 1
      x := p.x + xDelta b
      y := p.y + yDelta b
      z := p.z + zDelta b })

/-- A power byte: applied going forward unless the byte before it was one too. -/
def power (p : Player) (b : Word) : List Event × Player :=
  if bit p.flags 1 then ([], { p with data := b })
  else if p.backward then ([], { p with data := b, flags := raise p.flags 2 })
  else ([.write p.pwm (b &&& 0x7f)],
    { p with data := b &&& 0x7f, flags := raise (raise p.flags 1) 2 })

/-- Every byte moves the counters by the direction and counts the waypoint down. -/
def endbyte (p : Player) : List Event × Player :=
  let p := { p with bytes := p.bytes + p.dir, head := p.head + p.dir, data := p.dir }
  if p.waypoint = 0 then ([], p)
  else if p.waypoint - 1 = 0 then ([.notify 3], { p with waypoint := 0, inhibit := 0 })
  else ([], { p with waypoint := p.waypoint - 1 })

def actOn (p : Player) : List Event × Player :=
  if bit p.pulse 7 then p.power (p.pulse.zeroExtend 32) else p.motion p.played

def consume (p : Player) : List Event × Player :=
  let r := p.actOn
  (.read p.address p.pulse :: (r.1 ++ r.2.endbyte.1), r.2.endbyte.2)

def again (p : Player) : Bool := bit p.flags 2

def settle (p : Player) : Player := { p with flags := lower p.flags 2 }

def parkedPins (w : Word) : Word :=
  lower (lower (lower (lower (lower (lower w 30) 31) 22) 20) 29) 21

/-- A tick with nothing to play: force the lines low and, the first time, disarm
the run and signal the end of data; later, signal again every 255 such ticks. -/
def park (p : Player) : List Event × Player :=
  let w := parkedPins p.pins
  let p := { p with pins := w }
  if p.dir = 0 then
    if p.data + 1 = 255 then ([.write p.gpio w, .notify 3], { p with data := 0 })
    else ([.write p.gpio w], { p with data := p.data + 1 })
  else ([.write p.gpio w, .write p.mailbox 1, .notify 3],
    { p with dir := 0, waypoint := 0, data := 0 })

structure Setup where
  mask : Word
  pwm : Word
  base : Word
  ctx : Word
  epit : Word
  gpio : Word
  mailbox : Word
  mem : Word → Byte
  lock : Word
  tail : Word

def setup (p : Player) : Setup where
  mask := p.mask
  pwm := p.pwm
  base := p.base
  ctx := p.ctx
  epit := p.epit
  gpio := p.gpio
  mailbox := p.mailbox
  mem := p.mem
  lock := p.lock
  tail := p.tail

theorem power_cases (p : Player) (b : Word) :
    ∃ d f, (p.power b).2 = { p with data := d, flags := f } := by
  unfold power
  split
  · exact ⟨b, p.flags, rfl⟩
  · split
    · exact ⟨b, _, rfl⟩
    · exact ⟨_, _, rfl⟩

theorem actOn_cases (p : Player) : ∃ x y z d f w, p.actOn.2 =
    { p with x := x, y := y, z := z, data := d, flags := f, pins := w } := by
  unfold actOn
  split
  · obtain ⟨d, f, h⟩ := power_cases p (p.pulse.zeroExtend 32)
    exact ⟨p.x, p.y, p.z, d, f, p.pins, h⟩
  · exact ⟨_, _, _, _, _, _, rfl⟩

theorem endbyte_cases (p : Player) : ∃ w i, p.endbyte.2 =
    { p with
      bytes := p.bytes + p.dir, head := p.head + p.dir, data := p.dir, waypoint := w, inhibit := i } ∧
      (p.endbyte.1 = [] ∧ i = p.inhibit ∨ p.endbyte.1 = [.notify 3]) := by
  unfold endbyte
  simp only
  split
  · exact ⟨p.waypoint, p.inhibit, rfl, .inl ⟨rfl, rfl⟩⟩
  · split
    · exact ⟨0, 0, rfl, .inr rfl⟩
    · exact ⟨_, p.inhibit, rfl, .inl ⟨rfl, rfl⟩⟩

theorem endbyte_setup (p : Player) : p.endbyte.2.setup = p.setup := by
  obtain ⟨w, i, h, -⟩ := endbyte_cases p
  rw [h]
  rfl

@[simp] theorem endbyte_flags (p : Player) : p.endbyte.2.flags = p.flags := by
  obtain ⟨w, i, h, -⟩ := endbyte_cases p
  rw [h]

theorem actOn_setup (p : Player) : p.actOn.2.setup = p.setup := by
  obtain ⟨x, y, z, d, f, w, h⟩ := actOn_cases p
  rw [h]
  rfl

theorem consume_setup (p : Player) : p.consume.2.setup = p.setup :=
  (endbyte_setup p.actOn.2).trans (actOn_setup p)

@[simp] theorem actOn_dir (p : Player) : p.actOn.2.dir = p.dir := by
  obtain ⟨x, y, z, d, f, w, h⟩ := actOn_cases p
  rw [h]

@[simp] theorem actOn_head (p : Player) : p.actOn.2.head = p.head := by
  obtain ⟨x, y, z, d, f, w, h⟩ := actOn_cases p
  rw [h]

@[simp] theorem actOn_bytes (p : Player) : p.actOn.2.bytes = p.bytes := by
  obtain ⟨x, y, z, d, f, w, h⟩ := actOn_cases p
  rw [h]

@[simp] theorem consume_dir (p : Player) : p.consume.2.dir = p.dir := by
  obtain ⟨w, i, h, -⟩ := endbyte_cases p.actOn.2
  rw [consume, h]
  exact actOn_dir p

@[simp] theorem consume_head (p : Player) : p.consume.2.head = p.head + p.dir := by
  obtain ⟨w, i, h, -⟩ := endbyte_cases p.actOn.2
  rw [consume, h]
  simp

@[simp] theorem consume_bytes (p : Player) : p.consume.2.bytes = p.bytes + p.dir := by
  obtain ⟨w, i, h, -⟩ := endbyte_cases p.actOn.2
  rw [consume, h]
  simp

theorem actOn_of_motion {p : Player} (h : bit p.pulse 7 = false) : p.actOn = p.motion p.played :=
  if_neg (Bool.eq_false_iff.mp h)

/-- Only a power byte asks for another byte in the same tick. -/
theorem consume_again_of_motion {p : Player} (hmotion : bit p.pulse 7 = false)
    (hagain : p.again = false) : p.consume.2.again = false := by
  unfold again at hagain ⊢
  rw [consume, endbyte_flags, actOn_of_motion hmotion]
  simp [motion, hagain]

theorem park_setup (p : Player) : p.park.2.setup = p.setup := by
  unfold park
  simp only
  split
  · split <;> rfl
  · rfl

@[simp] theorem park_head (p : Player) : p.park.2.head = p.head := by
  unfold park
  simp only
  split
  · split <;> rfl
  · rfl

@[simp] theorem park_dir (p : Player) : p.park.2.dir = 0 := by
  unfold park
  simp only
  split
  · rename_i hdir
    split <;> exact hdir
  · rfl

/-- Where the script waits for the next timer tick. -/
inductive Phase where
  | boot
  | ready
  | parked
  deriving DecidableEq, Repr

/-- Play bytes until the tick is over, `n` of them. -/
inductive Drains : Nat → Player → List Event → Phase → Player → Prop where
  | park {p : Player} (hidle : p.idle) : Drains 0 p p.park.1 .parked p.park.2
  | last {p : Player} (hbusy : ¬p.idle) (hlast : p.consume.2.again = false) :
      Drains 1 p p.consume.1 .ready p.consume.2.settle
  | more {n : Nat} {p p' : Player} {es : List Event} {ph : Phase} (hbusy : ¬p.idle)
      (hmore : p.consume.2.again = true) (rest : Drains n p.consume.2.settle es ph p') :
      Drains (n + 1) p (p.consume.1 ++ es) ph p'

/-- One timer tick, from one wait to the next, playing `n` bytes. -/
inductive Tick : Nat → Phase → Player → List Event → Phase → Player → Prop where
  | restart {ph : Phase} {p : Player} (hph : ph ≠ .ready) :
      Tick 0 ph p [.write p.epit 1] .ready { p with flags := 1, pins := 0 }
  | play {n : Nat} {p p' : Player} {es : List Event} {ph : Phase} (h : Drains n p es ph p') :
      Tick n .ready p (.write p.epit p.flags :: es) ph p'

theorem Drains.setup {n : Nat} {p p' : Player} {es : List Event} {ph : Phase}
    (h : Drains n p es ph p') : p'.setup = p.setup := by
  induction h with
  | park _ => exact park_setup _
  | last _ _ => exact consume_setup _
  | more _ _ _ ih => exact ih.trans (consume_setup _)

theorem Tick.setup {n : Nat} {ph ph' : Phase} {p p' : Player} {es : List Event}
    (h : Tick n ph p es ph' p') : p'.setup = p.setup := by
  cases h with
  | restart _ => rfl
  | play hdrains => exact hdrains.setup

end Player

end Glowforge.Sdma
