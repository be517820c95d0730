import Glowforge.Sdma.Session

/-! The laser bits of the GPIO words during a backward run and during a resume's lead.
Only the step-and-laser word is masked, so the direction word carries whatever laser
bits the run before left in r3; they are gone once the script has been through
`start` or has parked, and stay gone from then on. -/
namespace Glowforge.Sdma
open Foundation Engine Player

def laserClear (w : Word) : Prop := bit w 30 = false ∧ bit w 31 = false

instance (w : Word) : Decidable (laserClear w) := inferInstanceAs (Decidable (_ ∧ _))

def Event.laserClear : Event → Prop
  | .write _ value => Sdma.laserClear value
  | .read _ _ => True
  | .notify _ => True

def Event.isNotify : Event → Bool
  | .notify _ => true
  | _ => false

/-- The part of a run that must play with the laser off: all of a backward run, and
the lead of an accelerating forward run, up to its waypoint. -/
inductive Cover where
  | none
  | backward
  | lead
  deriving DecidableEq, Repr

namespace Cover

/-- The events of a tick that fall into the covered part. -/
def during : Cover → List Event → List Event
  | none, _ => []
  | backward, es => es
  | lead, es => es.takeWhile fun e => !e.isNotify

def after : Cover → List Event → Cover
  | none, _ => none
  | backward, _ => backward
  | lead, es => if es.any Event.isNotify then none else lead

@[simp] theorem during_nil (c : Cover) : c.during [] = [] := by
  cases c <;> rfl

@[simp] theorem after_nil (c : Cover) : c.after [] = c := by
  cases c <;> rfl

theorem during_append (c : Cover) (es fs : List Event) :
    c.during (es ++ fs) = c.during es ++ (c.after es).during fs := by
  cases c with
  | none => rfl
  | backward => rfl
  | lead =>
      induction es with
      | nil => simp [during, after]
      | cons e es ih =>
          cases he : e.isNotify with
          | true => simp [during, after, he]
          | false =>
              simp only [during, after] at ih
              simp [during, after, he, ih]

theorem after_append (c : Cover) (es fs : List Event) :
    c.after (es ++ fs) = (c.after es).after fs := by
  cases c with
  | none => rfl
  | backward => rfl
  | lead => cases h : es.any Event.isNotify <;> simp [after, h]

def Shuts : Cover → Player → Prop
  | none, _ => True
  | backward, p => p.dir = 0 ∨ p.backward = true
  | lead, p => p.inhibit = laserInhibitBits

end Cover

/-! The pins: direction and step bits leave the laser bits alone. -/

@[simp] theorem laserClear_dirPins (b w : Word) : laserClear (dirPins b w) ↔ laserClear w := by
  unfold laserClear dirPins zDirPin yDirPins xDirPin
  split <;> split <;> split <;> simp

@[simp] theorem laserClear_clearPins (w : Word) : laserClear (clearPins w) ↔ laserClear w := by
  simp [laserClear, clearPins]

theorem laserClear_parkedPins (w : Word) : laserClear (parkedPins w) := by
  simp [laserClear, parkedPins]

theorem laserClear_and_not {w v : Word} (h : laserClear w) : laserClear (w &&& ~~~v) := by
  obtain ⟨h30, h31⟩ := h
  simp [laserClear, h30, h31]

theorem laserClear_stepPins {b : Word} (h : bit b 4 = false) (w : Word) :
    laserClear (stepPins b w) := by
  simp [laserClear, stepPins, laserPins, h]

theorem laserClear_and_not_inhibit (w v : Word) :
    laserClear (w &&& ~~~v &&& ~~~laserInhibitBits) := by
  have h30 : bit laserInhibitBits 30 = true := by decide
  have h31 : bit laserInhibitBits 31 = true := by decide
  simp [laserClear, h30, h31]

/-! One byte, one tick. -/

namespace Player

theorem laserClear_power_duty (b : Word) : laserClear (b &&& 0x7f) := by
  have h30 : bit (0x7f#32) 30 = false := by decide
  have h31 : bit (0x7f#32) 31 = false := by decide
  simp [laserClear, h30, h31]

theorem laser_off_played {p : Player} (h : p.backward = true) : bit p.played 4 = false := by
  simp [played, h]

private theorem motion_covered {p : Player} {c : Cover} (hc : c ≠ .none) (hs : c.Shuts p)
    (hdir : p.dir ≠ 0) (hpins : laserClear p.pins) :
    (∀ e ∈ (p.motion p.played).1, e.laserClear) ∧ laserClear (p.motion p.played).2.pins := by
  have hword : laserClear (stepPins p.played (dirPins p.played p.pins) &&& ~~~p.lock &&&
      ~~~p.inhibit) := by
    cases c with
    | none => contradiction
    | backward =>
        have hback := hs.resolve_left hdir
        exact laserClear_and_not (laserClear_and_not (laserClear_stepPins (laser_off_played hback) _))
    | lead =>
        unfold Cover.Shuts at hs
        rw [hs]
        exact laserClear_and_not_inhibit _ _
  have hclear := (laserClear_clearPins _).mpr hword
  refine ⟨?_, hclear⟩
  intro e he
  simp only [motion, List.mem_cons, List.not_mem_nil, or_false] at he
  rcases he with rfl | rfl | rfl
  · exact (laserClear_dirPins _ _).mpr hpins
  · exact hword
  · exact hclear

private theorem power_covered {p : Player} (b : Word) (hpins : laserClear p.pins) :
    (∀ e ∈ (p.power b).1, e.laserClear) ∧ laserClear (p.power b).2.pins := by
  unfold power
  split
  · exact ⟨by simp, hpins⟩
  · split
    · exact ⟨by simp, hpins⟩
    · refine ⟨?_, hpins⟩
      intro e he
      rw [List.mem_singleton] at he
      subst he
      exact laserClear_power_duty b

theorem actOn_covered {p : Player} {c : Cover} (hc : c ≠ .none) (hs : c.Shuts p)
    (hdir : p.dir ≠ 0) (hpins : laserClear p.pins) :
    (∀ e ∈ p.actOn.1, e.laserClear) ∧ laserClear p.actOn.2.pins := by
  unfold actOn
  split
  · exact power_covered _ hpins
  · exact motion_covered hc hs hdir hpins

theorem actOn_shuts {p : Player} {c : Cover} (hs : c.Shuts p) : c.Shuts p.actOn.2 := by
  obtain ⟨x, y, z, d, f, w, h⟩ := actOn_cases p
  rw [h]
  cases c <;> exact hs

theorem endbyte_shuts {p : Player} {c : Cover} (hs : c.Shuts p) :
    (c.after p.endbyte.1).Shuts p.endbyte.2 := by
  obtain ⟨w, i, h, hev⟩ := endbyte_cases p
  rw [h]
  cases c with
  | none => trivial
  | backward => exact hs
  | lead =>
      rcases hev with ⟨hnil, hi⟩ | hnotify
      · rw [hnil, hi]
        exact hs
      · rw [hnotify]
        trivial

private theorem endbyte_covered {p : Player} (hpins : laserClear p.pins) :
    (∀ e ∈ p.endbyte.1, e.laserClear) ∧ laserClear p.endbyte.2.pins := by
  obtain ⟨w, i, h, hev⟩ := endbyte_cases p
  refine ⟨?_, ?_⟩
  · rcases hev with ⟨hnil, -⟩ | hnotify
    · simp [hnil]
    · simp [hnotify, Event.laserClear]
  · rw [h]
    exact hpins

private theorem actOn_after (p : Player) (c : Cover) : c.after p.actOn.1 = c := by
  cases c with
  | none => rfl
  | backward => rfl
  | lead =>
      unfold actOn power motion
      split
      · split
        · rfl
        · split <;> rfl
      · rfl

theorem consume_covered {p : Player} {c : Cover} (hc : c ≠ .none) (hs : c.Shuts p)
    (hdir : p.dir ≠ 0) (hpins : laserClear p.pins) :
    (∀ e ∈ p.consume.1, e.laserClear) ∧ laserClear p.consume.2.pins ∧
      (c.after p.consume.1).Shuts p.consume.2 := by
  obtain ⟨hact, hpins₁⟩ := actOn_covered hc hs hdir hpins
  obtain ⟨hend, hpins₂⟩ := endbyte_covered hpins₁
  refine ⟨?_, hpins₂, ?_⟩
  · intro e he
    rw [consume, List.mem_cons, List.mem_append] at he
    rcases he with rfl | he | he
    · trivial
    · exact hact e he
    · exact hend e he
  · have hread : c.after [Event.read p.address p.pulse] = c := by cases c <;> rfl
    have hafter : c.after p.consume.1 = c.after p.actOn.2.endbyte.1 := by
      have hcons : p.consume.1 = [.read p.address p.pulse] ++ (p.actOn.1 ++ p.actOn.2.endbyte.1) :=
        rfl
      rw [hcons, Cover.after_append, Cover.after_append, hread, actOn_after]
    rw [hafter]
    exact endbyte_shuts (actOn_shuts hs)

theorem park_covered {p : Player} {c : Cover} (hs : c.Shuts p) :
    (∀ e ∈ p.park.1, e.laserClear) ∧ laserClear p.park.2.pins ∧
      (c.after p.park.1).Shuts p.park.2 := by
  have hone : laserClear 1#32 := by decide
  have hpins := laserClear_parkedPins p.pins
  unfold park
  simp only
  split
  · rename_i hdir
    split
    · refine ⟨by simp [Event.laserClear, hpins], hpins, ?_⟩
      cases c with
      | none => trivial
      | backward => exact .inl hdir
      | lead => trivial
    · refine ⟨by simp [Event.laserClear, hpins], hpins, ?_⟩
      cases c <;> exact hs
  · refine ⟨by simp [Event.laserClear, hpins, hone], hpins, ?_⟩
    cases c with
    | none => trivial
    | backward => exact .inl rfl
    | lead => trivial

theorem settle_shuts {p : Player} {c : Cover} (hs : c.Shuts p) : c.Shuts p.settle := by
  cases c <;> exact hs

end Player

theorem Cover.during_subset {c : Cover} {es : List Event} {e : Event} (h : e ∈ c.during es) :
    e ∈ es := by
  cases c with
  | none => simp [during] at h
  | backward => exact h
  | lead => exact (List.takeWhile_sublist _).subset h

theorem drains_covered {n : Nat} {p p' : Player} {es : List Event} {ph : Phase}
    (h : Drains n p es ph p') {c : Cover} (hs : c.Shuts p)
    (hpins : c ≠ .none → laserClear p.pins) :
    (∀ e ∈ c.during es, e.laserClear) ∧ (c.after es).Shuts p' ∧
      (c.after es ≠ .none → laserClear p'.pins) := by
  induction h generalizing c with
  | park hidle =>
      obtain ⟨hev, hpins', hs'⟩ := park_covered hs
      exact ⟨fun e he => hev e (Cover.during_subset he), hs', fun _ => hpins'⟩
  | last hbusy hlast =>
      by_cases hc : c = .none
      · subst hc
        exact ⟨by simp [Cover.during], trivial, fun h => absurd rfl h⟩
      · have hdir := fun h => hbusy (.inl h)
        obtain ⟨hev, hpins', hs'⟩ := consume_covered hc hs hdir (hpins hc)
        exact ⟨fun e he => hev e (Cover.during_subset he), settle_shuts hs', fun _ => hpins'⟩
  | more hbusy hmore rest ih =>
      by_cases hc : c = .none
      · subst hc
        exact ⟨by simp [Cover.during], trivial, fun h => absurd rfl h⟩
      · have hdir := fun h => hbusy (.inl h)
        obtain ⟨hev, hpins', hs'⟩ := consume_covered hc hs hdir (hpins hc)
        obtain ⟨hev', hs'', hpins''⟩ := ih (settle_shuts hs') (fun _ => hpins')
        rw [Cover.during_append, Cover.after_append]
        refine ⟨?_, hs'', hpins''⟩
        intro e he
        rcases List.mem_append.mp he with he | he
        · exact hev e (Cover.during_subset he)
        · exact hev' e he

/-! The EPIT acknowledge writes r1, whose flags live in its low bits. -/

private theorem actOn_flags {p : Player} (h : laserClear p.flags) : laserClear p.actOn.2.flags := by
  obtain ⟨h30, h31⟩ := h
  unfold actOn power motion
  split
  · split
    · exact ⟨h30, h31⟩
    · split <;> simp [laserClear, h30, h31]
  · simp [laserClear, h30, h31]

private theorem consume_flags {p : Player} (h : laserClear p.flags) :
    laserClear p.consume.2.settle.flags := by
  obtain ⟨w, i, hend, -⟩ := endbyte_cases p.actOn.2
  obtain ⟨h30, h31⟩ := actOn_flags h
  simp [consume, settle, hend, laserClear, h30, h31]

private theorem park_flags (p : Player) : p.park.2.flags = p.flags := by
  unfold park
  simp only
  split
  · split <;> rfl
  · rfl

theorem drains_flags {n : Nat} {p p' : Player} {es : List Event} {ph : Phase}
    (h : Drains n p es ph p') (hflags : laserClear p.flags) : laserClear p'.flags := by
  induction h with
  | park _ =>
      rw [park_flags]
      exact hflags
  | last _ _ => exact consume_flags hflags
  | more _ _ _ ih => exact ih (consume_flags hflags)

theorem tick_covered {n : Nat} {ph ph' : Phase} {p p' : Player} {es : List Event}
    (h : Tick n ph p es ph' p') {c : Cover} (hs : c.Shuts p) (hflags : laserClear p.flags)
    (hpins : c ≠ .none → ph = .ready → laserClear p.pins) :
    (∀ e ∈ c.during es, e.laserClear) ∧ (c.after es).Shuts p' ∧ laserClear p'.flags ∧
      (c.after es ≠ .none → laserClear p'.pins) := by
  have hone : laserClear 1#32 := by decide
  have hzero : laserClear 0#32 := by decide
  cases h with
  | restart hph =>
      refine ⟨?_, ?_, hone, fun _ => hzero⟩
      · intro e he
        have hmem := Cover.during_subset he
        rw [List.mem_singleton] at hmem
        subst hmem
        exact hone
      · cases c <;> exact hs
  | play hdrains =>
      obtain ⟨hev, hs', hpins'⟩ := drains_covered hdrains hs (fun hc => hpins hc rfl)
      have hfirst : c.after [Event.write p.epit p.flags] = c := by cases c <;> rfl
      have hcons (es : List Event) :
          Event.write p.epit p.flags :: es = [Event.write p.epit p.flags] ++ es := rfl
      rw [hcons, Cover.during_append, Cover.after_append, hfirst]
      refine ⟨?_, hs', drains_flags hdrains hflags, hpins'⟩
      intro e he
      rcases List.mem_append.mp he with he | he
      · have hmem := Cover.during_subset he
        rw [List.mem_singleton] at hmem
        subst hmem
        exact hflags
      · exact hev e he

/-- The host and the script, with what the run in flight is covered by. -/
structure Session where
  engine : Config Label
  cover : Cover

namespace Session

def probe (args : ScriptArgs) : Session := ⟨loadSdmaScript args, .none⟩

def coverAfter (c : Cover) (es : List Event) : HostAction → Cover
  | .start _ backward accelerate _ =>
      if backward then .backward else if accelerate then .lead else .none
  | _ => c.after es

def step (s : Session) (a : HostAction) : Option (List Event × Session) :=
  (s.engine.host a).map fun r => (s.cover.during r.1, ⟨r.2, coverAfter s.cover r.1 a⟩)

/-- A covered run is not started over laser bits left in r3. -/
def startsDark (s : Session) : HostAction → Prop
  | .start _ backward accelerate _ =>
      (backward || accelerate) = true → midRun s.engine = true → laserClear s.engine.m.r3
  | _ => True

structure Gated (args : ScriptArgs) (s : Session) (ph : Phase) : Prop where
  waits : ph.Waits s.engine
  gpio : s.engine.m.player.gpio = args.gpioBase
  flags : laserClear s.engine.m.player.flags
  shuts : s.cover.Shuts s.engine.m.player
  pins : s.cover ≠ .none → ph = .ready → laserClear s.engine.m.player.pins

private theorem gated_probe (args : ScriptArgs) : Gated args (probe args) .boot where
  waits := waits_load args
  gpio := rfl
  flags := show laserClear 0#32 by decide
  shuts := trivial
  pins := fun h => absurd rfl h

private theorem gated_tick {args : ScriptArgs} {s : Session} {ph : Phase} (h : Gated args s ph)
    {fuel : Nat} {es : List Event} {c : Config Label}
    (hexec : exec script.step fuel s.engine = some (es, c)) :
    (∃ ph', Gated args ⟨c, s.cover.after es⟩ ph') ∧ ∀ e ∈ s.cover.during es, e.laserClear := by
  obtain ⟨n, ph', htick, hw⟩ := tick_of_exec h.waits hexec
  obtain ⟨hev, hshuts, hflags, hpins⟩ := tick_covered htick h.shuts h.flags h.pins
  have hgpio : c.m.player.gpio = s.engine.m.player.gpio := congrArg Setup.gpio htick.setup
  exact ⟨⟨ph', hw, hgpio.trans h.gpio, hflags, hshuts, fun hc _ => hpins hc⟩, hev⟩

private theorem gated_start {args : ScriptArgs} {s : Session} {ph : Phase} (h : Gated args s ph)
    {tail numSteps : Word} {backward accelerate : Bool}
    (hdark : startsDark s (.start tail backward accelerate numSteps)) (es : List Event) :
    Gated args ⟨s.engine.start tail backward accelerate numSteps,
      coverAfter s.cover es (.start tail backward accelerate numSteps)⟩ ph := by
  have hp := player_start s.engine tail backward accelerate numSteps
  have hminus : bit 0xFFFFFFFF#32 31 = true := by decide
  refine ⟨h.waits.start tail backward accelerate numSteps, ?_, ?_, ?_, ?_⟩
  · rw [hp]
    exact h.gpio
  · rw [hp]
    exact h.flags
  · rw [hp]
    cases backward <;> cases accelerate <;>
      simp [coverAfter, Cover.Shuts, Player.start, Player.backward, hminus]
  · intro hcover hready
    subst hready
    rw [hp]
    have hasked : (backward || accelerate) = true := by
      cases backward <;> cases accelerate <;> simp [coverAfter] at hcover ⊢
    exact hdark hasked (midRun_of_ready h.waits)

private structure Keeps (p q : Player) : Prop where
  gpio : q.gpio = p.gpio
  flags : q.flags = p.flags
  dir : q.dir = p.dir
  inhibit : q.inhibit = p.inhibit
  pins : q.pins = p.pins

private theorem gated_keep {args : ScriptArgs} {s : Session} {ph : Phase} (h : Gated args s ph)
    {c : Config Label} (hw : ph.Waits c) (hkeep : Keeps s.engine.m.player c.m.player) :
    Gated args ⟨c, s.cover.after []⟩ ph := by
  rw [Cover.after_nil]
  refine ⟨hw, hkeep.gpio.trans h.gpio, ?_, ?_, ?_⟩
  · rw [hkeep.flags]
    exact h.flags
  · have hshuts := h.shuts
    cases hc : s.cover with
    | none => trivial
    | backward =>
        rw [hc] at hshuts
        simpa [Cover.Shuts, Player.backward, hkeep.dir] using hshuts
    | lead =>
        rw [hc] at hshuts
        exact hkeep.inhibit.trans hshuts
  · rw [hkeep.pins]
    exact h.pins

private theorem gated_step {args : ScriptArgs} {s : Session} {a : HostAction}
    {r : List Event × Session} (h : ∃ ph, Gated args s ph) (hdark : startsDark s a)
    (hstep : s.step a = some r) : (∃ ph, Gated args r.2 ph) ∧ ∀ e ∈ r.1, e.laserClear := by
  obtain ⟨ph, h⟩ := h
  obtain ⟨⟨es, c⟩, hhost, rfl⟩ := Option.map_eq_some_iff.mp hstep
  have hquiet : ∀ e ∈ s.cover.during ([] : List Event), e.laserClear := by
    intro e he
    exact absurd (Cover.during_subset he) List.not_mem_nil
  cases a with
  | tick fuel => exact gated_tick h hhost
  | start tail backward accelerate numSteps =>
      cases hhost
      exact ⟨⟨ph, gated_start h hdark []⟩, hquiet⟩
  | publishTail tail =>
      cases hhost
      have hw := h.waits.withMachine (m := s.engine.m.setWord 29 tail) rfl
      refine ⟨⟨ph, gated_keep h hw ?_⟩, hquiet⟩
      rw [player_publishTail]
      exact ⟨rfl, rfl, rfl, rfl, rfl⟩
  | clear data position =>
      cases hhost
      refine ⟨⟨ph, gated_keep h (h.waits.clear data position) ?_⟩, hquiet⟩
      rw [player_clear]
      exact ⟨rfl, rfl, rfl, rfl, rfl⟩
  | setMotorLock bits =>
      cases hhost
      have hw := h.waits.withMachine (m := s.engine.m.setWord 18 bits) rfl
      refine ⟨⟨ph, gated_keep h hw ?_⟩, hquiet⟩
      rw [player_setMotorLock]
      exact ⟨rfl, rfl, rfl, rfl, rfl⟩
  | store addr b =>
      cases hhost
      refine ⟨⟨ph, gated_keep h (h.waits.withMachine rfl) ?_⟩, hquiet⟩
      exact ⟨rfl, rfl, rfl, rfl, rfl⟩

private theorem waits_reachable {args : ScriptArgs} {s : Session}
    (h : System.Reachable step (probe args) s) :
    ∃ ph : Phase, ph.Waits s.engine ∧ s.engine.m.player.gpio = args.gpioBase := by
  apply h.invariant (I := fun s => ∃ ph : Phase, ph.Waits s.engine ∧
    s.engine.m.player.gpio = args.gpioBase)
  · exact ⟨.boot, waits_load args, rfl⟩
  · intro s a r ⟨ph, hw, hgpio⟩ hstep
    obtain ⟨q, hhost, rfl⟩ := Option.map_eq_some_iff.mp hstep
    obtain ⟨ph', hw'⟩ := waits_of_host hw hhost
    exact ⟨ph', hw', (congrArg Wiring.gpio (wiring_of_host hw hhost)).trans hgpio⟩

private theorem exec_first_motion {c : Config Label} (hw : Phase.ready.Waits c)
    (hbusy : ¬c.m.player.idle) (hmotion : bit c.m.player.pulse 7 = false) :
    ∃ fuel es c', exec script.step fuel c = some (.write c.m.player.epit c.m.player.flags ::
      .read c.m.player.address c.m.player.pulse ::
      .write c.m.player.gpio (dirPins c.m.player.played c.m.player.pins) :: es, c') := by
  have hlast := consume_again_of_motion hmotion hw.2.1
  obtain ⟨c', hexec, -⟩ := exec_of_tick (.play (.last hbusy hlast)) hw rfl
  have hread : c.m.player.consume.1 = .read c.m.player.address c.m.player.pulse ::
      (c.m.player.actOn.1 ++ c.m.player.actOn.2.endbyte.1) := rfl
  rw [hread, actOn_of_motion hmotion] at hexec
  exact ⟨_, _, c', hexec⟩

private theorem not_startsDark {s : Session} {tail numSteps : Word} {backward accelerate : Bool}
    (h : ¬startsDark s (.start tail backward accelerate numSteps)) :
    (backward || accelerate) = true ∧ midRun s.engine = true ∧ ¬laserClear s.engine.m.r3 := by
  simpa [startsDark] using h

private theorem mem_during_first {c : Cover} (hc : c ≠ .none) {e₁ e₂ e₃ : Event}
    (h₁ : e₁.isNotify = false) (h₂ : e₂.isNotify = false) (h₃ : e₃.isNotify = false)
    (es : List Event) : e₃ ∈ c.during (e₁ :: e₂ :: e₃ :: es) := by
  cases c with
  | none => contradiction
  | backward => simp [Cover.during]
  | lead => simp [Cover.during, h₁, h₂, h₃]

private theorem covered_first_motion {s : Session} {ph : Phase} (hw : ph.Waits s.engine)
    {tail numSteps : Word} {backward accelerate : Bool}
    (h : ¬startsDark s (.start tail backward accelerate numSteps))
    (hbusy : ¬(s.engine.m.player.start tail backward accelerate numSteps).idle)
    (hmotion : bit (s.engine.m.player.start tail backward accelerate numSteps).pulse 7 = false) :
    ∃ s' fuel r v, s.step (.start tail backward accelerate numSteps) = some ([], s') ∧
      s'.step (.tick fuel) = some r ∧ Event.write s.engine.m.player.gpio v ∈ r.1 ∧
      ¬laserClear v := by
  obtain ⟨hcovered, hmid, hlit⟩ := not_startsDark h
  have hready := ready_of_midRun hw hmid
  subst hready
  have hp := player_start s.engine tail backward accelerate numSteps
  rw [← hp] at hbusy hmotion
  obtain ⟨fuel, es, c', hexec⟩ :=
    exec_first_motion (hw.start tail backward accelerate numSteps) hbusy hmotion
  rw [hp] at hexec
  let c := coverAfter s.cover [] (.start tail backward accelerate numSteps)
  have hcover : c ≠ .none := by
    cases backward <;> cases accelerate <;> simp [c, coverAfter] at hcovered ⊢
  let q := s.engine.m.player.start tail backward accelerate numSteps
  have htick : ∃ r, (⟨s.engine.start tail backward accelerate numSteps, c⟩ : Session).step
      (.tick fuel) = some r ∧ r.1 = c.during (.write q.epit q.flags :: .read q.address q.pulse ::
        .write q.gpio (dirPins q.played q.pins) :: es) := by
    simp only [step, Config.host, hexec, Option.map_some]
    exact ⟨_, rfl, rfl⟩
  obtain ⟨r, hstep, hout⟩ := htick
  refine ⟨_, fuel, r, dirPins q.played q.pins, ?_, hstep, ?_, ?_⟩
  · simp [step, Config.host, c]
  · rw [hout]
    exact mem_during_first hcover rfl rfl rfl es
  · exact fun hv => hlit ((laserClear_dirPins _ _).mp hv)

/-- The laser stays dark in every covered run that is not started over laser bits left
in r3; one that is plays its first motion byte under those bits, whatever the byte. -/
theorem covered_words_dark (args : ScriptArgs) :
    (∀ as r, System.Along step startsDark as (probe args) →
      System.execute step as (probe args) = some r →
        ∀ v, Event.write args.gpioBase v ∈ r.1 → laserClear v) ∧
    (∀ s, System.Reachable step (probe args) s → ∀ tail backward accelerate numSteps,
      ¬startsDark s (.start tail backward accelerate numSteps) →
      ¬(s.engine.m.player.start tail backward accelerate numSteps).idle →
      bit (s.engine.m.player.start tail backward accelerate numSteps).pulse 7 = false →
        ∃ s' fuel r v, s.step (.start tail backward accelerate numSteps) = some ([], s') ∧
          s'.step (.tick fuel) = some r ∧ Event.write args.gpioBase v ∈ r.1 ∧ ¬laserClear v) := by
  constructor
  · intro as r halong hexec v hv
    have hrun := System.execute_guarded (I := fun s => ∃ ph, Gated args s ph)
      (P := Event.laserClear) (fun _ _ _ => gated_step) ⟨.boot, gated_probe args⟩ halong hexec
    exact hrun.2 _ hv
  · intro s hreach tail backward accelerate numSteps hlit hbusy hmotion
    obtain ⟨ph, hw, hgpio⟩ := waits_reachable hreach
    rw [← hgpio]
    exact covered_first_motion hw hlit hbusy hmotion

private def firing : ScriptArgs := .over fun _ => 0x10

/-- A job fires one byte and is halted; the operator backtracks. -/
private def haltedMidFire : List HostAction :=
  [.start 5 false false 0, .tick 200, .tick 200, .start 0xFFFFFFFF true true 3, .tick 200]

theorem covered_words_dark_false :
    ¬∀ (args : ScriptArgs) (as : List HostAction) (r : List Event × Session),
      System.execute step as (probe args) = some r →
        ∀ v, Event.write args.gpioBase v ∈ r.1 → laserClear v := by
  intro h
  have hrun : (System.execute step haltedMidFire (probe firing)).map (·.1) =
      some [.write 0x020D0004 1, .read 0x20000001 0x10, .write 0x0209C000 0xD0020000,
        .write 0x0209C000 0x10020000, .write 0x0209C000 0x10020000] := by decide +kernel
  obtain ⟨r, hexec, hout⟩ := Option.map_eq_some_iff.mp hrun
  have hlit := h firing haltedMidFire r hexec 0xD0020000 (by rw [hout]; decide)
  exact absurd hlit (by decide)

/-- A backtrack from a script just loaded. -/
theorem covered_words_dark_backtrack :
    ∃ r, System.execute step [.start 5 true true 3, .tick 200, .tick 200] (probe firing) = some r ∧
      ∀ v, Event.write firing.gpioBase v ∈ r.1 → laserClear v := by
  have hrun : (System.execute step [.start 5 true true 3, .tick 200, .tick 200]
      (probe firing)).isSome := by decide +kernel
  obtain ⟨r, hexec⟩ := Option.isSome_iff_exists.mp hrun
  refine ⟨r, hexec, (covered_words_dark firing).1 _ r ?_ hexec⟩
  refine ⟨fun _ hmid => absurd hmid (by decide), fun _ _ => ⟨trivial, fun _ _ => ⟨trivial, ?_⟩⟩⟩
  exact fun _ _ => trivial

end Session

end Glowforge.Sdma
