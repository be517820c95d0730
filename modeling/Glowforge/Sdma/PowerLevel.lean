import Glowforge.Sdma.Parking
import Glowforge.Sdma.Track

/-! The power bytes of a forward run. A flag that a motion byte clears keeps the script
from applying two in a row: the second is consumed, and its level is lost. -/
namespace Glowforge.Sdma
open Foundation Engine

def isPower (b : Byte) : Bool := bit b 7

def powerLevel (b : Byte) : Word := b.zeroExtend 32 &&& 0x7f

def bytesRead (es : List Event) : List Byte := (reads es).map Prod.snd

@[simp] theorem bytesRead_append (es fs : List Event) :
    bytesRead (es ++ fs) = bytesRead es ++ bytesRead fs := by
  simp [bytesRead]

def lastWrite (addr v : Word) (es : List Event) : Word :=
  es.foldl (fun v e =>
    match e with
    | .write a w => if a = addr then w else v
    | _ => v) v

@[simp] theorem lastWrite_append (addr v : Word) (es fs : List Event) :
    lastWrite addr v (es ++ fs) = lastWrite addr (lastWrite addr v es) fs :=
  List.foldl_append

theorem lastWrite_of_notMem {addr : Word} {es : List Event} (h : ∀ w, .write addr w ∉ es)
    (v : Word) : lastWrite addr v es = v := by
  induction es with
  | nil => rfl
  | cons e es ih =>
      have htail : lastWrite addr v es = v := ih fun w hw => h w (List.mem_cons_of_mem e hw)
      cases e with
      | write a w =>
          have ha : a ≠ addr := by
            rintro rfl
            exact h w List.mem_cons_self
          have hskip : lastWrite addr v (.write a w :: es) = lastWrite addr v es := by
            simp [lastWrite, ha]
          rw [hskip, htail]
      | read a b => exact htail
      | notify j => exact htail

def lastPower (bs : List Byte) : Option Byte := (bs.filter isPower).getLast?

def LevelsHeld (addr v : Word) (es : List Event) : Prop :=
  ∀ pre post, es = pre ++ post → NextByte post →
    ∀ b, lastPower (bytesRead pre) = some b → lastWrite addr v pre = powerLevel b

/-- A power byte in a row of them, or first with the flag still up, repeats the level that
the register holds. -/
def Repeats : Bool → Word → List Byte → Prop
  | _, _, [] => True
  | flag, v, b :: bs =>
      if isPower b then (flag = true → v = powerLevel b) ∧ Repeats true (powerLevel b) bs
      else Repeats false v bs

instance Repeats.decide : (flag : Bool) → (v : Word) → (bs : List Byte) →
    Decidable (Repeats flag v bs)
  | _, _, [] => inferInstanceAs (Decidable True)
  | flag, v, b :: bs =>
      have := Repeats.decide true (powerLevel b) bs
      have := Repeats.decide false v bs
      inferInstanceAs (Decidable (if isPower b then
        (flag = true → v = powerLevel b) ∧ Repeats true (powerLevel b) bs else Repeats false v bs))

/-- What the script makes of a byte: the flag, and the register. -/
def meter (s : Bool × Word) (b : Byte) : Bool × Word :=
  if isPower b then (true, if s.1 then s.2 else powerLevel b) else (false, s.2)

theorem lastPower_cons_power {b : Byte} (h : isPower b = true) (bs : List Byte) :
    lastPower (b :: bs) = some ((lastPower bs).getD b) := by
  unfold lastPower
  rw [List.filter_cons_of_pos h, List.getLast?_cons]

theorem lastPower_cons_motion {b : Byte} (h : isPower b = false) (bs : List Byte) :
    lastPower (b :: bs) = lastPower bs := by
  unfold lastPower
  rw [List.filter_cons_of_neg (Bool.eq_false_iff.mp h)]

theorem foldl_meter_of_motions {bs : List Byte} (h : lastPower bs = none) (s : Bool × Word) :
    (bs.foldl meter s).2 = s.2 := by
  induction bs generalizing s with
  | nil => rfl
  | cons b bs ih =>
      cases hb : isPower b with
      | true =>
          rw [lastPower_cons_power hb] at h
          cases h
      | false =>
          rw [lastPower_cons_motion hb] at h
          rw [List.foldl_cons, ih h]
          simp [meter, hb]

theorem meter_follows_iff (flag : Bool) (v : Word) (bs : List Byte) :
    (∀ q r, bs = q ++ r → ∀ b, lastPower q = some b →
      (q.foldl meter (flag, v)).2 = powerLevel b) ↔ Repeats flag v bs := by
  induction bs generalizing flag v with
  | nil =>
      refine iff_of_true ?_ trivial
      intro q r hq b hb
      obtain ⟨rfl, -⟩ := List.append_eq_nil_iff.mp hq.symm
      cases hb
  | cons b bs ih =>
      unfold Repeats
      cases hb : isPower b with
      | true =>
          have hmeter : meter (flag, v) b = (true, if flag then v else powerLevel b) := by
            simp [meter, hb]
          rw [if_pos rfl, ← ih]
          constructor
          · intro hall
            have hone : lastPower [b] = some b := lastPower_cons_power hb []
            have hfirst : (if flag then v else powerLevel b) = powerLevel b := by
              have hheld := hall [b] bs rfl b hone
              rwa [List.foldl_cons, List.foldl_nil, hmeter] at hheld
            refine ⟨fun hflag => ?_, ?_⟩
            · simpa only [hflag, if_true] using hfirst
            · intro q r hq b' hb'
              have hmore := hall (b :: q) r (by rw [hq]; rfl) b'
                (by rw [lastPower_cons_power hb, hb']; rfl)
              rwa [List.foldl_cons, hmeter, hfirst] at hmore
          · rintro ⟨hrepeats, hrest⟩ q r hq b' hb'
            have hheld : (if flag then v else powerLevel b) = powerLevel b := by
              cases flag with
              | true => exact hrepeats rfl
              | false => rfl
            cases q with
            | nil => cases hb'
            | cons x q =>
                obtain ⟨rfl, htail⟩ := List.cons_eq_cons.mp hq
                rw [List.foldl_cons, hmeter, hheld]
                rw [lastPower_cons_power hb] at hb'
                cases hlast : lastPower q with
                | none =>
                    rw [hlast] at hb'
                    obtain rfl := Option.some.inj hb'
                    exact foldl_meter_of_motions hlast _
                | some y =>
                    rw [hlast] at hb'
                    obtain rfl := Option.some.inj hb'
                    exact hrest q r htail y hlast
      | false =>
          have hmeter : meter (flag, v) b = (false, v) := by simp [meter, hb]
          rw [if_neg Bool.false_ne_true, ← ih]
          constructor
          · intro hall q r hq b' hb'
            have hmore := hall (b :: q) r (by rw [hq]; rfl) b'
              (by rw [lastPower_cons_motion hb, hb'])
            rwa [List.foldl_cons, hmeter] at hmore
          · intro hall q r hq b' hb'
            cases q with
            | nil => cases hb'
            | cons x q =>
                obtain ⟨rfl, htail⟩ := List.cons_eq_cons.mp hq
                rw [List.foldl_cons, hmeter]
                rw [lastPower_cons_motion hb] at hb'
                exact hall q r htail b' hb'

/-- At each boundary the register holds what the meter makes of the bytes so far. -/
def Metered (addr : Word) (flag : Bool) (v : Word) (es : List Event) : Prop :=
  ∀ pre post, es = pre ++ post → NextByte post →
    lastWrite addr v pre = ((bytesRead pre).foldl meter (flag, v)).2

theorem exists_boundary {es : List Event} {q r : List Byte} (h : bytesRead es = q ++ r) :
    ∃ pre post, es = pre ++ post ∧ NextByte post ∧ bytesRead pre = q := by
  cases r with
  | nil => exact ⟨es, [], (List.append_nil es).symm, .inl rfl, by rw [h, List.append_nil]⟩
  | cons b r =>
      obtain ⟨reads₁, reads₂, hreads, hq, hr⟩ := List.map_eq_append_iff.mp h
      obtain ⟨pre, rest, rfl, hpre, hrest⟩ := List.filterMap_eq_append_iff.mp hreads
      obtain ⟨x, xs, rfl, -, -⟩ := List.map_eq_cons_iff.mp hr
      obtain ⟨gap, e, post, rfl, hgap, he, -⟩ := List.filterMap_eq_cons_iff.mp hrest
      refine ⟨pre ++ gap, e :: post, by rw [List.append_assoc], ?_, ?_⟩
      · cases e with
        | read a b => exact .inr ⟨a, b, post, rfl⟩
        | write a w => cases he
        | notify j => cases he
      · have hnone : reads gap = [] := List.filterMap_eq_nil_iff.mpr hgap
        rw [bytesRead_append, bytesRead, bytesRead, hnone, show reads pre = reads₁ from hpre, hq]
        exact List.append_nil q

theorem Metered.levelsHeld_iff {addr v : Word} {flag : Bool} {es : List Event}
    (h : Metered addr flag v es) : LevelsHeld addr v es ↔ Repeats flag v (bytesRead es) := by
  rw [← meter_follows_iff]
  constructor
  · intro hheld q r hq b hb
    obtain ⟨pre, post, hes, hnext, rfl⟩ := exists_boundary hq
    rw [← h pre post hes hnext]
    exact hheld pre post hes hnext b hb
  · intro hall pre post hes hnext b hb
    rw [h pre post hes hnext]
    apply hall _ (bytesRead post) _ b hb
    rw [hes, bytesRead_append]

theorem Metered.after_quiet {addr v : Word} {flag : Bool} {es fs : List Event}
    (hreads : reads es = []) (hwrites : ∀ w, .write addr w ∉ es)
    (h : Metered addr flag v fs) : Metered addr flag v (es ++ fs) := by
  intro pre post hsplit hnext
  obtain ⟨mid, rfl, hrest⟩ := hnext.split hreads hsplit
  rw [lastWrite_append, lastWrite_of_notMem hwrites, bytesRead_append, bytesRead, hreads]
  exact h mid post hrest hnext

theorem Metered.of_unread {addr v : Word} {flag flag' : Bool} {es : List Event}
    (hreads : bytesRead es = []) (h : Metered addr flag v es) : Metered addr flag' v es := by
  intro pre post hsplit hnext
  have hpre : bytesRead pre = [] := by
    rw [hsplit, bytesRead_append] at hreads
    exact (List.append_eq_nil_iff.mp hreads).1
  have hheld := h pre post hsplit hnext
  rw [hpre] at hheld ⊢
  exact hheld

theorem Metered.after_byte {addr v a : Word} {flag flag' : Bool} {b : Byte} {es fs : List Event}
    (hreads : reads es = [])
    (hmeter : meter (flag, v) b = (flag', lastWrite addr v (.read a b :: es)))
    (h : Metered addr flag' (lastWrite addr v (.read a b :: es)) fs) :
    Metered addr flag v (.read a b :: es ++ fs) := by
  intro pre post hsplit hnext
  rcases hnext.split_byte hreads hsplit with ⟨rfl, -⟩ | ⟨mid, rfl, hrest⟩
  · rfl
  · have hbytes : bytesRead (.read a b :: es ++ mid) = b :: bytesRead mid := by
      rw [bytesRead_append]
      change b :: (reads es).map Prod.snd ++ bytesRead mid = _
      rw [hreads]
      rfl
    rw [hbytes, lastWrite_append, List.foldl_cons, hmeter]
    exact h mid post hrest hnext

namespace Player

variable {L : Word → Prop} {ph ph' : Phase} {p q p' : Player} {qs : List Player} {es fs : List Event}

structure Lone (p : Player) : Prop where
  gpio : p.gpio ≠ p.pwm
  epit : p.epit ≠ p.pwm
  mailbox : p.mailbox ≠ p.pwm

/-- The flag that the next byte finds: a restart clears it. -/
def powerFlag (ph : Phase) (p : Player) : Bool := decide (ph = .ready) && bit p.flags 1

theorem pwm_endbyte (p : Player) (addr w : Word) : .write addr w ∉ p.endbyte.1 := by
  obtain ⟨_, _, -, ⟨h, -⟩ | h⟩ := endbyte_cases p <;> rw [h] <;> simp

theorem meter_consume (h : p.Lone) (hforward : p.backward = false) (v : Word) :
    meter (powerFlag .ready p, v) p.pulse =
      (powerFlag .ready p.consume.2.settle, lastWrite p.pwm v p.consume.1) := by
  have hsplit : p.consume.1 = .read p.address p.pulse :: (p.actOn.1 ++ p.actOn.2.endbyte.1) := rfl
  have hwrite : lastWrite p.pwm v p.consume.1 = lastWrite p.pwm v p.actOn.1 := by
    rw [hsplit]
    change lastWrite p.pwm v (p.actOn.1 ++ p.actOn.2.endbyte.1) = _
    rw [lastWrite_append]
    exact lastWrite_of_notMem (pwm_endbyte p.actOn.2 p.pwm) _
  have hflag : powerFlag .ready p.consume.2.settle = bit p.actOn.2.flags 1 := by
    simp [powerFlag, settle, consume]
  rw [hwrite, hflag]
  unfold meter isPower powerFlag actOn power
  cases hpower : bit p.pulse 7 with
  | true =>
      cases hup : bit p.flags 1 with
      | true => simp [hup, lastWrite]
      | false => simp [hforward, lastWrite, powerLevel]
  | false => simp [motion, lastWrite, h.gpio]

theorem Lone.consume (h : p.Lone) : p.consume.2.settle.Lone := by
  have hsetup : p.consume.2.settle.setup = p.setup := consume_setup p
  have hpwm : p.consume.2.settle.pwm = p.pwm := congrArg Setup.pwm hsetup
  constructor
  · rw [hpwm, show p.consume.2.settle.gpio = p.gpio from congrArg Setup.gpio hsetup]
    exact h.gpio
  · rw [hpwm, show p.consume.2.settle.epit = p.epit from congrArg Setup.epit hsetup]
    exact h.epit
  · rw [hpwm, show p.consume.2.settle.mailbox = p.mailbox from congrArg Setup.mailbox hsetup]
    exact h.mailbox

theorem Quiet.pwm (hquiet : Quiet L ph p es ph' q) (h : p.Lone) :
    (∀ w, .write p.pwm w ∉ es) ∧ q.pwm = p.pwm ∧ q.Lone := by
  cases hquiet with
  | ack => exact ⟨by simp [h.epit.symm], rfl, h⟩
  | restart hph => exact ⟨by simp [h.epit.symm], rfl, h.gpio, h.epit, h.mailbox⟩
  | park hidle =>
      have hsetup := park_setup p
      have hpwm : p.park.2.pwm = p.pwm := congrArg Setup.pwm hsetup
      refine ⟨?_, hpwm, ?_⟩
      · intro w
        unfold Player.park
        simp only
        split
        · split <;> simp [h.gpio.symm]
        · simp [h.gpio.symm, h.mailbox.symm]
      · constructor
        · rw [hpwm, show p.park.2.gpio = p.gpio from congrArg Setup.gpio hsetup]
          exact h.gpio
        · rw [hpwm, show p.park.2.epit = p.epit from congrArg Setup.epit hsetup]
          exact h.epit
        · rw [hpwm, show p.park.2.mailbox = p.mailbox from congrArg Setup.mailbox hsetup]
          exact h.mailbox
  | publish tail => exact ⟨by simp, rfl, h.gpio, h.epit, h.mailbox⟩
  | lock bits => exact ⟨by simp, rfl, h.gpio, h.epit, h.mailbox⟩
  | store mem => exact ⟨by simp, rfl, h.gpio, h.epit, h.mailbox⟩

theorem Quiet.flag (hquiet : Quiet L ph p es ph' q) :
    q.dir = 0 ∨ q.dir = p.dir ∧ powerFlag ph' q = powerFlag ph p := by
  cases hquiet with
  | restart hph =>
      refine .inr ⟨rfl, ?_⟩
      have hclear : bit (1 : Word) 1 = false := by decide
      rw [powerFlag, powerFlag, decide_eq_false hph, hclear, Bool.and_false, Bool.false_and]
  | park hidle => exact .inl (park_dir p)
  | _ => exact .inr ⟨rfl, rfl⟩

theorem Track.metered (h : Track L ph p qs es ph' p') (hlone : p.Lone)
    (hdir : p.dir = 1 ∨ p.dir = 0) (v : Word) : Metered p.pwm (powerFlag ph p) v es := by
  induction h generalizing v with
  | done =>
      intro pre post hsplit hnext
      obtain ⟨rfl, -⟩ := List.append_eq_nil_iff.mp hsplit.symm
      rfl
  | @quiet ph ph' ph'' p q p' qs es fs hquiet rest ih =>
      obtain ⟨hwrites, hpwm, hlone'⟩ := hquiet.pwm hlone
      apply Metered.after_quiet hquiet.reads_eq hwrites
      rcases hquiet.flag with hstill | ⟨hsame, hflag⟩
      · have hnone : bytesRead fs = [] := by
          rw [bytesRead, rest.reads_eq, (rest.still hstill).1]
          rfl
        rw [← hpwm]
        exact (ih hlone' (.inr hstill) v).of_unread hnone
      · rw [← hpwm, ← hflag]
        apply ih hlone' _ v
        rw [hsame]
        exact hdir
  | @byte ph p p' qs es hbusy rest ih =>
      have hforward : p.backward = false := by
        rcases hdir with hdir | hdir <;> rw [backward, hdir] <;> decide
      have hpwm : p.consume.2.settle.pwm = p.pwm := congrArg Setup.pwm (consume_setup p)
      have hreads := reads_consume p
      apply Metered.after_byte (List.cons_eq_cons.mp hreads).2 (meter_consume hlone hforward v)
      have hrest := ih hlone.consume (by
        rw [show p.consume.2.settle.dir = p.dir from consume_dir p]
        exact hdir) (lastWrite p.pwm v p.consume.1)
      rw [hpwm] at hrest
      exact hrest

end Player

open Player

/-- In a forward run, the PWM register holds the level of the last power byte consumed,
after every byte, exactly when each power byte that follows another, or that comes first
while the flag of a stopped run is up, repeats the level in the register. -/
theorem power_levels_held_iff {args : ScriptArgs} (hgpio : args.gpioBase ≠ args.pwmSampleRegister)
    (hepit : args.epitStatusRegister ≠ args.pwmSampleRegister)
    (hmailbox : args.mailboxPhys ≠ args.pwmSampleRegister) {c : Config Label}
    (hreach : System.Reachable Config.host (loadSdmaScript args) c) {tail numSteps : Word}
    {accelerate : Bool} {as : List HostAction} (has : ∀ a ∈ as, a.continues = true)
    {r : List Event × Config Label}
    (hexec : System.execute Config.host as (c.start tail false accelerate numSteps) = some r)
    {bs : List Byte} (hplayed : bytesRead r.1 = bs) (v : Word) :
    LevelsHeld args.pwmSampleRegister v r.1 ↔ Repeats (midRun c && bit c.m.r1 1) v bs := by
  obtain ⟨ph, hw⟩ := waits_host_reachable hreach
  have hwiring := wiring_reachable hreach
  have hpwm : c.m.player.pwm = args.pwmSampleRegister := congrArg Wiring.pwm hwiring
  obtain ⟨qs, ph', htrack, -⟩ := track_of_execute (L := fun _ => True)
    (hw.start tail false accelerate numSteps) has (fun _ _ => trivial) hexec
  rw [player_start] at htrack
  have hlone : (c.m.player.start tail false accelerate numSteps).Lone := by
    constructor
    · change c.m.player.gpio ≠ c.m.player.pwm
      rw [hpwm, show c.m.player.gpio = args.gpioBase from congrArg Wiring.gpio hwiring]
      exact hgpio
    · change c.m.player.epit ≠ c.m.player.pwm
      rw [hpwm, show c.m.player.epit = args.epitStatusRegister from congrArg Wiring.epit hwiring]
      exact hepit
    · change c.m.player.mailbox ≠ c.m.player.pwm
      rw [hpwm, show c.m.player.mailbox = args.mailboxPhys from congrArg Wiring.mailbox hwiring]
      exact hmailbox
  have hmetered := htrack.metered hlone (.inl rfl) v
  have hflag : powerFlag ph (c.m.player.start tail false accelerate numSteps) =
      (midRun c && bit c.m.r1 1) := by
    by_cases hph : ph = .ready
    · subst hph
      rw [midRun_of_ready hw]
      rfl
    · have hmid : midRun c = false := by
        by_contra hrun
        exact hph (ready_of_midRun hw (Bool.eq_true_of_not_eq_false hrun))
      rw [powerFlag, decide_eq_false hph, hmid, Bool.false_and, Bool.false_and]
  rw [← hplayed, ← hflag, ← hpwm]
  exact hmetered.levelsHeld_iff

private def spaced : ScriptArgs :=
  .over fun a => if a = 0x20000000 then 0x81 else if a = 0x20000001 then 0x01 else 0x82

/-- Power bytes apart from each other all take effect. -/
theorem power_levels_held_spaced :
    ∃ r, System.execute Config.host [.tick 200, .tick 200, .tick 200]
        ((loadSdmaScript spaced).start 3 false false 0) = some r ∧
      bytesRead r.1 = [0x81, 0x01, 0x82] ∧ LevelsHeld 0x0208000C 0 r.1 := by
  have hrun : (System.execute Config.host [.tick 200, .tick 200, .tick 200]
      ((loadSdmaScript spaced).start 3 false false 0)).map (fun r => bytesRead r.1) =
      some [0x81, 0x01, 0x82] := by decide +kernel
  obtain ⟨r, hexec, hplayed⟩ := Option.map_eq_some_iff.mp hrun
  refine ⟨r, hexec, hplayed, ?_⟩
  have hreach : System.Reachable Config.host (loadSdmaScript spaced) (loadSdmaScript spaced) :=
    System.Reachable.refl _
  have hiff := power_levels_held_iff (by decide) (by decide) (by decide) hreach (by decide) hexec
    hplayed 0
  apply hiff.mpr
  decide +kernel

private def adjacent : ScriptArgs := .over fun a => if a = 0x20000000 then 0x81 else 0x82

/-- The second of them is consumed, and the register keeps the level of the first. -/
theorem power_levels_held_false :
    ∃ r, System.execute Config.host [.tick 200, .tick 200, .tick 200]
        ((loadSdmaScript adjacent).start 2 false false 0) = some r ∧
      bytesRead r.1 = [0x81, 0x82] ∧ lastWrite 0x0208000C 0 r.1 = 1 ∧
      ¬LevelsHeld 0x0208000C 0 r.1 := by
  have hrun : (System.execute Config.host [.tick 200, .tick 200, .tick 200]
      ((loadSdmaScript adjacent).start 2 false false 0)).map
        (fun r => (bytesRead r.1, lastWrite 0x0208000C 0 r.1)) = some ([0x81, 0x82], 1) := by
    decide +kernel
  obtain ⟨r, hexec, hseen⟩ := Option.map_eq_some_iff.mp hrun
  injection hseen with hplayed hlast
  refine ⟨r, hexec, hplayed, hlast, ?_⟩
  intro hheld
  have hlevel := hheld r.1 [] (List.append_nil r.1).symm (.inl rfl) 0x82 (by rw [hplayed]; rfl)
  rw [hlast] at hlevel
  exact absurd hlevel (by decide)

end Glowforge.Sdma
