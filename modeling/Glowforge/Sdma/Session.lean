import Glowforge.Foundation.System
import Glowforge.Sdma.Tick

/-! The script and its host: the channel context as it is loaded at probe, what the
host writes into it from then on, and the runs of the script in between. The host
never writes the script's registers or its program counter. -/
namespace Glowforge.Sdma
open Foundation Engine Player

/-- The script arguments of `load_sdma_script`, and the memory its ring lies in. -/
structure ScriptArgs where
  fifoBitmask : Word
  pwmSampleRegister : Word
  fifoStartPhys : Word
  contextAddress : Word
  epitStatusRegister : Word
  gpioBase : Word
  mailboxPhys : Word
  memory : Word → Byte

def ScriptArgs.over (memory : Word → Byte) : ScriptArgs where
  fifoBitmask := 0xFFFFF
  pwmSampleRegister := 0x0208000C
  fifoStartPhys := 0x20000000
  contextAddress := 0x800
  epitStatusRegister := 0x020D0004
  gpioBase := 0x0209C000
  mailboxPhys := 0x21000000
  memory := memory

/-- `load_sdma_script`: the initial context, all zero but for the arguments. -/
def loadSdmaScript (args : ScriptArgs) : Config Label :=
  let m : Machine := {
    r0 := 0
    r1 := 0
    r2 := 0
    r3 := 0
    r4 := args.fifoBitmask
    r5 := args.pwmSampleRegister
    r6 := args.fifoStartPhys
    r7 := args.contextAddress
    t := false
    pda := args.epitStatusRegister
    mda := args.gpioBase
    msa := 0
    dm := fun _ => 0
    mem := args.memory }
  script.goto .start (((m.setWord 20 0).setWord 21 args.mailboxPhys).setWord 30 1)

/-- The laser pins as GPIO port bits: what a resume's lead inhibits. -/
def laserInhibitBits : Word := 0xC0000000

/-- What the host does to the script: let a timer tick through, start a run, publish
a new tail, clear the counters, lock motors, store a byte in the ring. -/
inductive HostAction where
  | tick (fuel : Nat)
  | start (tail : Word) (backward accelerate : Bool) (numSteps : Word)
  | publishTail (tail : Word)
  | clear (data position : Bool)
  | setMotorLock (bits : Word)
  | store (addr : Word) (b : Byte)

/-- `cnc_buffer_clear` after a `kfifo_reset`. -/
def Machine.clear (m : Machine) (data position : Bool) : Machine :=
  let m := if position then ((m.setWord 24 0).setWord 25 0).setWord 26 0 else m
  if data then ((m.setWord 27 0).setWord 28 0).setWord 29 0 else m

namespace Config

def withMachine (c : Config Label) (m : Machine) : Config Label :=
  { c with m := m }

/-- The registers `cnc_run_with_options` writes: tail, direction, waypoint counter
and laser inhibit. -/
def start (c : Config Label) (tail : Word) (backward accelerate : Bool) (numSteps : Word) :
    Config Label :=
  c.withMachine <|
    (((c.m.setWord 29 tail).setWord 30 (if backward then 0xFFFFFFFF else 1)).setWord 31
      numSteps).setWord 20 (if accelerate && !backward then laserInhibitBits else 0)

def clear (c : Config Label) (data position : Bool) : Config Label :=
  c.withMachine (c.m.clear data position)

def host (c : Config Label) : HostAction → Option (List Event × Config Label)
  | .tick fuel => exec script.step fuel c
  | .start tail backward accelerate numSteps =>
      some ([], c.start tail backward accelerate numSteps)
  | .publishTail tail => some ([], c.withMachine (c.m.setWord 29 tail))
  | .clear data position => some ([], c.clear data position)
  | .setMotorLock bits => some ([], c.withMachine (c.m.setWord 18 bits))
  | .store addr b => some ([], c.withMachine { c.m with mem := Function.update c.m.mem addr b })

end Config

namespace Player

def start (p : Player) (tail : Word) (backward accelerate : Bool) (numSteps : Word) : Player :=
  { p with
    tail := tail
    dir := if backward then 0xFFFFFFFF else 1
    waypoint := numSteps
    inhibit := if accelerate && !backward then laserInhibitBits else 0 }

def clear (p : Player) (data position : Bool) : Player :=
  { p with
    x := if position then 0 else p.x
    y := if position then 0 else p.y
    z := if position then 0 else p.z
    bytes := if data then 0 else p.bytes
    head := if data then 0 else p.head
    tail := if data then 0 else p.tail }

end Player

section Fields

variable (p : Player) (tail numSteps : Word) (backward accelerate data position : Bool)

@[simp] theorem Player.start_mask : (p.start tail backward accelerate numSteps).mask = p.mask := rfl
@[simp] theorem Player.start_base : (p.start tail backward accelerate numSteps).base = p.base := rfl
@[simp] theorem Player.start_mem : (p.start tail backward accelerate numSteps).mem = p.mem := rfl
@[simp] theorem Player.start_head : (p.start tail backward accelerate numSteps).head = p.head := rfl
@[simp] theorem Player.start_tail : (p.start tail backward accelerate numSteps).tail = tail := rfl
@[simp] theorem Player.start_dir : (p.start tail backward accelerate numSteps).dir =
    if backward then 0xFFFFFFFF else 1 := rfl
@[simp] theorem Player.clear_mask : (p.clear data position).mask = p.mask := rfl
@[simp] theorem Player.clear_mem : (p.clear data position).mem = p.mem := rfl
@[simp] theorem Player.clear_base : (p.clear data position).base = p.base := rfl
@[simp] theorem Player.clear_head : (p.clear data position).head = if data then 0 else p.head := rfl

end Fields

@[simp] theorem Machine.setWord_r1 (m : Machine) (d v : Word) : (m.setWord d v).r1 = m.r1 := rfl

section HostEffects

attribute [local simp] Machine.player Machine.word Machine.setWord Function.update_apply

theorem head_load (args : ScriptArgs) : (loadSdmaScript args).m.player.head = 0 := by
  simp [loadSdmaScript, Program.goto]

theorem player_start (c : Config Label) (tail : Word) (backward accelerate : Bool)
    (numSteps : Word) :
    (c.start tail backward accelerate numSteps).m.player =
      c.m.player.start tail backward accelerate numSteps := by
  simp [Config.start, Config.withMachine, Player.start]

theorem player_publishTail (c : Config Label) (v : Word) :
    (c.withMachine (c.m.setWord 29 v)).m.player = { c.m.player with tail := v } := by
  simp [Config.withMachine]

theorem player_setMotorLock (c : Config Label) (v : Word) :
    (c.withMachine (c.m.setWord 18 v)).m.player = { c.m.player with lock := v } := by
  simp [Config.withMachine]

theorem player_setInhibit (c : Config Label) (v : Word) :
    (c.withMachine (c.m.setWord 20 v)).m.player = { c.m.player with inhibit := v } := by
  simp [Config.withMachine]

theorem player_store (c : Config Label) (mem : Word → Byte) :
    (c.withMachine { c.m with mem := mem }).m.player = { c.m.player with mem := mem } := rfl

theorem player_clear (c : Config Label) (data position : Bool) :
    (c.clear data position).m.player = c.m.player.clear data position := by
  cases data <;> cases position <;>
    simp [Config.clear, Config.withMachine, Machine.clear, Player.clear]

private theorem clear_r1 (m : Machine) (data position : Bool) :
    (m.clear data position).r1 = m.r1 := by
  cases data <;> cases position <;> simp [Machine.clear]

end HostEffects

theorem Player.Phase.Waits.withMachine {ph : Phase} {c : Config Label} (h : ph.Waits c)
    {m : Machine} (hr1 : m.r1 = c.m.r1) : ph.Waits (c.withMachine m) := by
  have hlive : (c.withMachine m).m.player.live ↔ c.m.player.live := by
    simp [live, Machine.player, Config.withMachine, hr1]
  have hagain : (c.withMachine m).m.player.again = c.m.player.again := by
    simp [again, Machine.player, Config.withMachine, hr1]
  cases ph with
  | boot =>
      unfold Waits at h ⊢
      rw [h]
      rfl
  | ready =>
      obtain ⟨hl, ha, hc⟩ := h
      refine ⟨hlive.mpr hl, hagain.trans ha, ?_⟩
      rcases hc with hc | hc <;> rw [hc]
      · exact .inl rfl
      · exact .inr rfl
  | parked =>
      obtain ⟨hl, hc⟩ := h
      refine ⟨hlive.mpr hl, ?_⟩
      rw [hc]
      rfl

theorem Player.Phase.Waits.start {ph : Phase} {c : Config Label} (h : ph.Waits c) (tail : Word)
    (backward accelerate : Bool) (numSteps : Word) :
    ph.Waits (c.start tail backward accelerate numSteps) := by
  unfold Config.start
  exact h.withMachine (by simp only [Machine.setWord_r1])

theorem Player.Phase.Waits.clear {ph : Phase} {c : Config Label} (h : ph.Waits c)
    (data position : Bool) : ph.Waits (c.clear data position) := by
  unfold Config.clear
  exact h.withMachine (clear_r1 c.m data position)

/-- The next tick plays a byte, on top of what the run before left in r3: the script
has neither parked nor just been loaded. -/
def midRun (c : Config Label) : Bool :=
  c.here == .endbyteDone || c.here == .start && c.rest.isEmpty

theorem midRun_of_ready {c : Config Label} (h : Phase.ready.Waits c) : midRun c = true := by
  obtain ⟨-, -, hc | hc⟩ := h <;> rw [hc] <;> rfl

theorem ready_of_midRun {ph : Phase} {c : Config Label} (hw : ph.Waits c)
    (h : midRun c = true) : ph = .ready := by
  cases ph with
  | boot =>
      rw [hw] at h
      contradiction
  | ready => rfl
  | parked =>
      rw [hw.2] at h
      contradiction

theorem waits_load (args : ScriptArgs) : Phase.boot.Waits (loadSdmaScript args) := rfl

theorem waits_of_host {ph : Phase} {c : Config Label} {a : HostAction}
    {r : List Event × Config Label} (hw : ph.Waits c) (h : c.host a = some r) :
    ∃ ph' : Phase, ph'.Waits r.2 := by
  cases a with
  | tick fuel =>
      obtain ⟨n, ph', -, hw'⟩ := tick_of_exec hw h
      exact ⟨ph', hw'⟩
  | start tail backward accelerate numSteps =>
      cases h
      exact ⟨ph, hw.start tail backward accelerate numSteps⟩
  | publishTail tail =>
      cases h
      exact ⟨ph, hw.withMachine rfl⟩
  | clear data position =>
      cases h
      exact ⟨ph, hw.clear data position⟩
  | setMotorLock bits =>
      cases h
      exact ⟨ph, hw.withMachine rfl⟩
  | store addr b =>
      cases h
      exact ⟨ph, hw.withMachine rfl⟩

theorem waits_host_reachable {args : ScriptArgs} {c : Config Label}
    (h : System.Reachable Config.host (loadSdmaScript args) c) : ∃ ph : Phase, ph.Waits c := by
  apply h.invariant (I := fun c => ∃ ph : Phase, ph.Waits c) ⟨.boot, waits_load args⟩
  rintro c a r ⟨ph, hw⟩ hstep
  exact waits_of_host hw hstep

@[ext] structure Player.Wiring where
  mask : Word
  pwm : Word
  base : Word
  epit : Word
  gpio : Word
  mailbox : Word

def Player.wiring (p : Player) : Wiring :=
  ⟨p.mask, p.pwm, p.base, p.epit, p.gpio, p.mailbox⟩

def ScriptArgs.wiring (args : ScriptArgs) : Wiring :=
  ⟨args.fifoBitmask, args.pwmSampleRegister, args.fifoStartPhys, args.epitStatusRegister,
    args.gpioBase, args.mailboxPhys⟩

theorem Player.wiring_of_setup {p q : Player} (h : p.setup = q.setup) : p.wiring = q.wiring :=
  congrArg (fun s : Setup => (⟨s.mask, s.pwm, s.base, s.epit, s.gpio, s.mailbox⟩ : Wiring)) h

theorem wiring_of_host {ph : Phase} {c : Config Label} {a : HostAction}
    {r : List Event × Config Label} (hw : ph.Waits c) (h : c.host a = some r) :
    r.2.m.player.wiring = c.m.player.wiring := by
  cases a with
  | tick fuel =>
      obtain ⟨n, ph', htick, -⟩ := tick_of_exec hw h
      exact wiring_of_setup htick.setup
  | start tail backward accelerate numSteps =>
      cases h
      rw [player_start]
      rfl
  | publishTail tail =>
      cases h
      rw [player_publishTail]
      rfl
  | clear data position =>
      cases h
      rw [player_clear]
      rfl
  | setMotorLock bits =>
      cases h
      rw [player_setMotorLock]
      rfl
  | store addr b =>
      cases h
      rfl

theorem wiring_load (args : ScriptArgs) : (loadSdmaScript args).m.player.wiring = args.wiring := by
  simp [loadSdmaScript, Program.goto, Machine.player, Machine.word, Machine.setWord,
    Player.wiring, ScriptArgs.wiring]

theorem wiring_reachable {args : ScriptArgs} {c : Config Label}
    (h : System.Reachable Config.host (loadSdmaScript args) c) :
    c.m.player.wiring = args.wiring := by
  have hinv := h.invariant (I := fun c => (∃ ph : Phase, ph.Waits c) ∧
    c.m.player.wiring = args.wiring) ⟨⟨.boot, waits_load args⟩, wiring_load args⟩ ?_
  · exact hinv.2
  · rintro c a r ⟨⟨ph, hw⟩, hwiring⟩ hstep
    exact ⟨waits_of_host hw hstep, (wiring_of_host hw hstep).trans hwiring⟩

end Glowforge.Sdma
