import Glowforge.Sdma.LaserGate
import Glowforge.Sdma.Parking
import Glowforge.Sdma.Track

/-! The waypoint of a run, counted in bytes. The signal comes with the last of the bytes
counted, and with it the laser inhibit goes: up to that byte the step-and-laser words are
dark, and from the next one on they follow the data. -/
namespace Glowforge.Sdma
open Foundation Engine

/-- The signals of a run that are no end of data: the script writes the mailbox before it
signals that. -/
def waypointSignals (mailbox : Word) (es : List Event) : Nat :=
  (es.takeWhile fun e => e ≠ .write mailbox 1).count (.notify 3)

theorem waypointSignals_append {mailbox : Word} {es : List Event}
    (h : .write mailbox 1 ∉ es) (fs : List Event) :
    waypointSignals mailbox (es ++ fs) = es.count (.notify 3) + waypointSignals mailbox fs := by
  unfold waypointSignals
  rw [List.takeWhile_append_of_pos, List.count_append]
  intro e he
  rw [decide_eq_true_iff]
  rintro rfl
  exact h he

/-- What is left of an inhibit mask once `k` bytes of the run have ended. -/
def inhibitLeft (numSteps loaded : Word) (k : Nat) : Word :=
  if 0 < numSteps.toNat ∧ numSteps.toNat ≤ k then 0 else loaded

theorem inhibitLeft_zero (numSteps loaded : Word) : inhibitLeft numSteps loaded 0 = loaded :=
  if_neg (by omega)

namespace Player

structure Wiring.MailboxApart (w : Wiring) : Prop where
  gpio : w.gpio ≠ w.mailbox
  epit : w.epit ≠ w.mailbox
  pwm : w.pwm ≠ w.mailbox

variable {L : Word → Prop} {ph ph' : Phase} {p q p' : Player} {qs : List Player} {es fs : List Event}

/-! One byte. -/

theorem endbyte_waypoint (p : Player) :
    p.endbyte.2.waypoint.toNat = p.waypoint.toNat - 1 ∧
    p.endbyte.2.inhibit = inhibitLeft p.waypoint p.inhibit 1 ∧
    p.endbyte.1 = if p.waypoint.toNat = 1 then [.notify 3] else [] := by
  unfold endbyte inhibitLeft
  simp only
  split
  · rename_i hzero
    rw [hzero]
    exact ⟨rfl, rfl, rfl⟩
  · rename_i hcounts
    have hpos : 0 < p.waypoint.toNat := by bv_omega
    split
    · rename_i hlast
      have hone : p.waypoint.toNat = 1 := by bv_omega
      rw [hone]
      exact ⟨rfl, rfl, rfl⟩
    · rename_i hmore
      have htwo : 1 < p.waypoint.toNat := by bv_omega
      refine ⟨by bv_omega, ?_, ?_⟩
      · rw [if_neg (by omega)]
      · rw [if_neg (by omega)]

theorem actOn_waypoint (p : Player) :
    p.actOn.2.waypoint = p.waypoint ∧ p.actOn.2.inhibit = p.inhibit := by
  obtain ⟨x, y, z, d, f, w, h⟩ := actOn_cases p
  rw [h]
  exact ⟨rfl, rfl⟩

theorem consume_waypoint (p : Player) :
    p.consume.2.waypoint.toNat = p.waypoint.toNat - 1 ∧
    p.consume.2.inhibit = inhibitLeft p.waypoint p.inhibit 1 := by
  obtain ⟨hwaypoint, hinhibit⟩ := actOn_waypoint p
  obtain ⟨hcount, hleft, -⟩ := endbyte_waypoint p.actOn.2
  rw [hwaypoint] at hcount hleft
  rw [hinhibit] at hleft
  exact ⟨hcount, hleft⟩

theorem actOn_mailbox (h : p.wiring.MailboxApart) :
    .write p.mailbox 1 ∉ p.actOn.1 ∧ .notify 3 ∉ p.actOn.1 := by
  have hgpio : p.gpio ≠ p.mailbox := h.gpio
  have hpwm : p.pwm ≠ p.mailbox := h.pwm
  unfold actOn power motion
  split
  · split
    · simp
    · split
      · simp
      · simp [hpwm.symm]
  · simp [hgpio.symm]

theorem consume_signals (h : p.wiring.MailboxApart) :
    .write p.mailbox 1 ∉ p.consume.1 ∧
    p.consume.1.count (.notify 3) = if p.waypoint.toNat = 1 then 1 else 0 := by
  obtain ⟨hsilent, hnone⟩ := actOn_mailbox h
  obtain ⟨hwaypoint, -⟩ := actOn_waypoint p
  obtain ⟨-, -, hend⟩ := endbyte_waypoint p.actOn.2
  rw [hwaypoint] at hend
  have hsplit : p.consume.1 = [.read p.address p.pulse] ++ p.actOn.1 ++ p.actOn.2.endbyte.1 := rfl
  rw [hsplit, hend, List.count_append, List.count_append, List.count_eq_zero_of_not_mem hnone]
  split
  · exact ⟨by simpa using hsilent, rfl⟩
  · exact ⟨by simpa using hsilent, rfl⟩

/-! Any stretch of a run. -/

theorem Quiet.keeps (h : Quiet L ph p es ph' q) :
    q.inhibit = p.inhibit ∧ q.wiring = p.wiring ∧
      (q.dir = 0 ∨ q.dir = p.dir ∧ q.waypoint = p.waypoint) := by
  cases h with
  | park hidle =>
      refine ⟨?_, wiring_of_setup (park_setup p), .inl (park_dir p)⟩
      unfold Player.park
      simp only
      split
      · split <;> rfl
      · rfl
  | _ => exact ⟨rfl, rfl, .inr ⟨rfl, rfl⟩⟩

/-- The state that byte `k` of a stretch is played from. -/
structure Turn (L : Word → Prop) (p q : Player) (k : Nat) : Prop where
  waypoint : q.waypoint.toNat = p.waypoint.toNat - k
  inhibit : q.inhibit = inhibitLeft p.waypoint p.inhibit k
  dir : q.dir = p.dir
  wiring : q.wiring = p.wiring
  lock : L p.lock → L q.lock

theorem inhibitLeft_next {n n' loaded : Word} (hcount : n'.toNat = n.toNat - 1) (k : Nat) :
    inhibitLeft n' (inhibitLeft n loaded 1) k = inhibitLeft n loaded (k + 1) := by
  unfold inhibitLeft
  split_ifs <;> first | rfl | omega

theorem Track.turn (h : Track L ph p qs es ph' p') {k : Nat} (hk : qs[k]? = some q) :
    Turn L p q k := by
  induction h generalizing k with
  | done => cases hk
  | @quiet ph ph' ph'' p r p' qs es fs hquiet rest ih =>
      obtain ⟨hinhibit, hwiring, hstill | ⟨hdir, hwaypoint⟩⟩ := hquiet.keeps
      · rw [(rest.still hstill).1] at hk
        cases hk
      · obtain ⟨hcount, hleft, hdir', hwiring', hlock⟩ := ih hk
        rw [hwaypoint] at hcount hleft
        rw [hinhibit] at hleft
        refine ⟨hcount, hleft, hdir'.trans hdir, hwiring'.trans hwiring, fun hL => hlock ?_⟩
        cases hquiet with
        | park hidle =>
            rw [show p.park.2.lock = p.lock from congrArg Setup.lock (park_setup p)]
            exact hL
        | lock hbits => exact hbits
        | _ => exact hL
  | @byte ph p p' qs es hbusy rest ih =>
      cases k with
      | zero =>
          obtain rfl := Option.some.inj hk
          exact ⟨(Nat.sub_zero _).symm, (inhibitLeft_zero _ _).symm, rfl, rfl, id⟩
      | succ k =>
          obtain ⟨hcount, hleft⟩ := consume_waypoint p
          have hsetup : p.consume.2.settle.setup = p.setup := consume_setup p
          obtain ⟨hcount', hleft', hdir', hwiring', hlock⟩ := ih hk
          refine ⟨?_, ?_, hdir'.trans (consume_dir p), hwiring'.trans (wiring_of_setup hsetup), ?_⟩
          · change q.waypoint.toNat = p.consume.2.waypoint.toNat - k at hcount'
            omega
          · rw [hleft']
            change inhibitLeft p.consume.2.waypoint p.consume.2.inhibit k = _
            rw [hleft]
            exact inhibitLeft_next hcount k
          · intro hL
            apply hlock
            rw [show p.consume.2.settle.lock = p.lock from congrArg Setup.lock hsetup]
            exact hL

theorem Track.inhibit (h : Track L ph p qs es ph' p') :
    p'.inhibit = inhibitLeft p.waypoint p.inhibit qs.length := by
  induction h with
  | done => exact (inhibitLeft_zero _ _).symm
  | @quiet ph ph' ph'' p r p' qs es fs hquiet rest ih =>
      obtain ⟨hinhibit, -, hstill | ⟨-, hwaypoint⟩⟩ := hquiet.keeps
      · rw [(rest.still hstill).1] at ih ⊢
        rw [ih, List.length_nil, inhibitLeft_zero, inhibitLeft_zero, hinhibit]
      · rw [ih, hwaypoint, hinhibit]
  | @byte ph p p' qs es hbusy rest ih =>
      obtain ⟨hcount, hleft⟩ := consume_waypoint p
      rw [ih]
      change inhibitLeft p.consume.2.waypoint p.consume.2.inhibit qs.length = _
      rw [hleft]
      exact inhibitLeft_next hcount qs.length

theorem length_reads_consume (p : Player) (es : List Event) :
    (reads (p.consume.1 ++ es)).length = (reads es).length + 1 := by
  rw [reads_append, reads_consume]
  rfl

theorem Track.at_read (h : Track L ph p qs es ph' p') {pre post : List Event} {a : Word} {b : Byte}
    (hsplit : es = pre ++ .read a b :: post) :
    ∃ q fs, qs[(reads pre).length]? = some q ∧ .read a b :: post = q.consume.1 ++ fs := by
  have hnext : NextByte (.read a b :: post) := .inr ⟨a, b, post, rfl⟩
  induction h generalizing pre with
  | done => exact absurd hsplit.symm (by simp)
  | quiet hquiet rest ih =>
      obtain ⟨mid, rfl, hrest⟩ := hnext.split hquiet.reads_eq hsplit
      obtain ⟨q, fs, hq, hpost⟩ := ih hrest
      refine ⟨q, fs, ?_, hpost⟩
      rw [reads_append, hquiet.reads_eq]
      exact hq
  | @byte ph p p' qs es hbusy rest ih =>
      have hreads := (List.cons_eq_cons.mp (reads_consume p)).2
      rcases hnext.split_byte hreads hsplit with ⟨rfl, hpost⟩ | ⟨mid, rfl, hrest⟩
      · exact ⟨p, es, rfl, hpost⟩
      · obtain ⟨q, fs, hq, hpost⟩ := ih hrest
        refine ⟨q, fs, ?_, hpost⟩
        change (p :: qs)[(reads (p.consume.1 ++ mid)).length]? = some q
        rw [length_reads_consume]
        exact hq

theorem Track.signals (h : Track L ph p qs es ph' p') (hapart : p.wiring.MailboxApart)
    (hdir : p.dir ≠ 0) {pre post : List Event} (hsplit : es = pre ++ post) (hnext : NextByte post) :
    waypointSignals p.mailbox pre =
      if 0 < p.waypoint.toNat ∧ p.waypoint.toNat ≤ (reads pre).length then 1 else 0 := by
  induction h generalizing pre with
  | done =>
      obtain ⟨rfl, -⟩ := List.append_eq_nil_iff.mp hsplit.symm
      rw [if_neg]
      · rfl
      · exact fun hcount => absurd hcount.2 (Nat.not_le.mpr hcount.1)
  | @quiet ph ph' ph'' p r p' qs es fs hquiet rest ih =>
      obtain ⟨mid, rfl, hrest⟩ := hnext.split hquiet.reads_eq hsplit
      rw [reads_append, hquiet.reads_eq, List.nil_append]
      by_cases hparks : r.dir = 0
      · -- the end of data comes first
        have hunread : reads mid = [] := by
          have hnone : reads (mid ++ post) = [] := by
            rw [← hrest, rest.reads_eq, (rest.still hparks).1]
            rfl
          rw [reads_append] at hnone
          exact (List.append_eq_nil_iff.mp hnone).1
        rw [hunread, if_neg]
        · cases hquiet with
          | park hidle =>
              have hgpio : p.gpio ≠ p.mailbox := hapart.gpio
              have hpark : p.park.1 =
                  [.write p.gpio (parkedPins p.pins), .write p.mailbox 1, .notify 3] := by
                unfold Player.park
                simp only
                rw [if_neg hdir]
              rw [hpark]
              simp [waypointSignals, hgpio]
          | _ => exact absurd hparks hdir
        · exact fun hcount => absurd hcount.2 (Nat.not_le.mpr hcount.1)
      · obtain ⟨-, hwiring, hstill | ⟨hdir', hwaypoint⟩⟩ := hquiet.keeps
        · exact absurd hstill hparks
        · have hepit : p.epit ≠ p.mailbox := hapart.epit
          have hsilent : .write p.mailbox 1 ∉ es ∧ .notify 3 ∉ es := by
            cases hquiet with
            | park hidle => exact absurd (park_dir p) hparks
            | _ => simp [hepit.symm]
          have hrest' := ih (hwiring ▸ hapart) hparks hrest
          rw [hwaypoint, show r.mailbox = p.mailbox from congrArg Wiring.mailbox hwiring] at hrest'
          rw [waypointSignals_append hsilent.1, List.count_eq_zero_of_not_mem hsilent.2, hrest',
            Nat.zero_add]
  | @byte ph p p' qs es hbusy rest ih =>
      have hreads := (List.cons_eq_cons.mp (reads_consume p)).2
      obtain ⟨hsilent, hcount⟩ := consume_signals hapart
      rcases hnext.split_byte hreads hsplit with ⟨rfl, -⟩ | ⟨mid, rfl, hrest⟩
      · rw [if_neg]
        · rfl
        · exact fun hcount => absurd hcount.2 (Nat.not_le.mpr hcount.1)
      · have hwiring : p.consume.2.settle.wiring = p.wiring := wiring_of_setup (consume_setup p)
        have hdir' : p.consume.2.settle.dir ≠ 0 := by
          rw [show p.consume.2.settle.dir = p.dir from consume_dir p]
          exact hdir
        have hrest' := ih (hwiring ▸ hapart) hdir' hrest
        rw [show p.consume.2.settle.mailbox = p.mailbox from congrArg Wiring.mailbox hwiring,
          show p.consume.2.settle.waypoint.toNat = _ from (consume_waypoint p).1] at hrest'
        have hwhole : waypointSignals p.mailbox (p.consume.1 ++ mid) =
            if 0 < p.waypoint.toNat ∧ p.waypoint.toNat ≤ (reads (p.consume.1 ++ mid)).length
            then 1 else 0 := by
          rw [waypointSignals_append hsilent, hcount, hrest', length_reads_consume]
          split_ifs <;> omega
        exact hwhole

/-! The step-and-laser word. -/

theorem laser_stepPins (b w : Word) {i : Nat} (hi : i = 30 ∨ i = 31) :
    bit (stepPins b w) i = bit b 4 := by
  unfold stepPins laserPins
  rcases hi with rfl | rfl
  · split <;> simp [*]
  · split <;> simp [*]

theorem laser_consume (hforward : p.backward = false) (hlock : laserClear p.lock)
    (hmotion : bit p.pulse 7 = false) :
    ∃ w₁ w₂ rest, p.consume.1 = .read p.address p.pulse :: .write p.gpio w₁ :: .write p.gpio w₂ ::
      rest ∧ ∀ i, i = 30 ∨ i = 31 → bit w₂ i = (bit p.pulse 4 && !bit p.inhibit i) := by
  refine ⟨dirPins p.played p.pins,
    stepPins p.played (dirPins p.played p.pins) &&& ~~~p.lock &&& ~~~p.inhibit,
    .write p.gpio (clearPins (stepPins p.played (dirPins p.played p.pins) &&& ~~~p.lock &&&
      ~~~p.inhibit)) :: p.actOn.2.endbyte.1, ?_, ?_⟩
  · rw [consume, actOn_of_motion hmotion]
    rfl
  · intro i hi
    have hplayed : bit p.played 4 = bit p.pulse 4 := by simp [played, hforward]
    have hlocked : bit p.lock i = false := by
      rcases hi with rfl | rfl
      · exact hlock.1
      · exact hlock.2
    have hbound : i < 32 := by omega
    rw [bit_and, bit_and, laser_stepPins _ _ hi, bit_not _ _ hbound, bit_not _ _ hbound, hlocked,
      hplayed, Bool.not_false, Bool.and_true]

end Player

open Player

/-- Motor locks are made of other bits than the laser's. -/
def HostAction.sparesLaser : HostAction → Prop
  | .setMotorLock bits => laserClear bits
  | _ => True

theorem lock_reachable {as : List HostAction} {c : Config Label} {r : List Event × Config Label}
    (hlocks : ∀ a ∈ as, a.sparesLaser) (hw : ∃ ph : Phase, ph.Waits c)
    (hlock : laserClear c.m.player.lock) (hexec : System.execute Config.host as c = some r) :
    laserClear r.2.m.player.lock := by
  have hinv := System.execute_guarded (I := fun c => (∃ ph : Phase, ph.Waits c) ∧
    laserClear c.m.player.lock) (P := fun _ => True) ?_ ⟨hw, hlock⟩
    (System.along_of_forall hlocks c) hexec
  · exact hinv.1.2
  · rintro c a r ⟨⟨ph, hw⟩, hlock⟩ hspares hstep
    refine ⟨⟨waits_of_host hw hstep, ?_⟩, fun _ _ => trivial⟩
    cases a with
    | tick fuel =>
        obtain ⟨n, ph', htick, -⟩ := tick_of_exec hw hstep
        rw [show r.2.m.player.lock = c.m.player.lock from congrArg Setup.lock htick.setup]
        exact hlock
    | start tail backward accelerate numSteps =>
        cases hstep
        rw [player_start]
        exact hlock
    | publishTail tail =>
        cases hstep
        rw [player_publishTail]
        exact hlock
    | clear data position =>
        cases hstep
        rw [player_clear]
        exact hlock
    | setMotorLock bits =>
        cases hstep
        rw [player_setMotorLock]
        exact hspares
    | store addr b =>
        cases hstep
        exact hlock

/-- A run of `n` counted bytes: one signal, once `n` bytes are consumed, and none at all for
`n = 0` or when the data ends first; the inhibit is as loaded for each of the `n` bytes, and
gone from the next one on; and in a resume the laser bits are low for the bytes counted, for
all bytes when none are counted, and follow bit 4 of the data from there on. -/
theorem waypoint_is_exact {args : ScriptArgs} (hapart : args.wiring.MailboxApart)
    {as₀ as : List HostAction} {r₀ r : List Event × Config Label}
    (hbefore : ∀ a ∈ as₀, a.sparesLaser)
    (hexec₀ : System.execute Config.host as₀ (loadSdmaScript args) = some r₀)
    {tail n loaded : Word} {backward accelerate : Bool}
    (hloaded : loaded = if accelerate && !backward then laserInhibitBits else 0)
    (has : ∀ a ∈ as, a.continues = true ∧ a.sparesLaser)
    (hexec : System.execute Config.host as (r₀.2.start tail backward accelerate n) = some r) :
    (∀ pre post, r.1 = pre ++ post → NextByte post → waypointSignals args.mailboxPhys pre =
      if 0 < n.toNat ∧ n.toNat ≤ (reads pre).length then 1 else 0) ∧
    (∃ ph qs ph', Track laserClear ph (r₀.2.start tail backward accelerate n).m.player qs r.1 ph'
        r.2.m.player ∧
      ∀ k q, qs[k]? = some q → q.inhibit = if 0 < n.toNat ∧ n.toNat ≤ k then 0 else loaded) ∧
    (r.2.m.word 20 = if 0 < n.toNat ∧ n.toNat ≤ (reads r.1).length then 0 else loaded) ∧
    (backward = false → accelerate = true → ∀ pre a b post, r.1 = pre ++ .read a b :: post →
      bit b 7 = false → ∃ w₁ w₂ rest,
        post = .write args.gpioBase w₁ :: .write args.gpioBase w₂ :: rest ∧
        ∀ i, i = 30 ∨ i = 31 → bit w₂ i =
          (decide (0 < n.toNat ∧ n.toNat ≤ (reads pre).length) && bit b 4)) := by
  have hreach : System.Reachable Config.host (loadSdmaScript args) r₀.2 := ⟨as₀, r₀.1, hexec₀⟩
  obtain ⟨ph, hw⟩ := waits_host_reachable hreach
  have hwiring := wiring_reachable hreach
  obtain ⟨qs, ph', htrack, -⟩ := track_of_execute (L := laserClear)
    (hw.start tail backward accelerate n) (fun a ha => (has a ha).1)
    (fun bits hbits => (has _ hbits).2) hexec
  have hplayer := player_start r₀.2 tail backward accelerate n
  have hunlocked : (loadSdmaScript args).m.player.lock = 0 := by
    simp [loadSdmaScript, Program.goto, Machine.player, Machine.word, Machine.setWord]
  have hlocked : laserClear r₀.2.m.player.lock :=
    lock_reachable hbefore ⟨.boot, waits_load args⟩ (hunlocked ▸ ⟨rfl, rfl⟩) hexec₀
  have hdir : (r₀.2.start tail backward accelerate n).m.player.dir =
      if backward then 0xFFFFFFFF else 1 := by
    rw [hplayer]
    rfl
  have hwired : (r₀.2.start tail backward accelerate n).m.player.wiring = args.wiring := by
    rw [hplayer]
    exact hwiring
  have hcount : (r₀.2.start tail backward accelerate n).m.player.waypoint = n := by
    rw [hplayer]
    rfl
  have hmask : (r₀.2.start tail backward accelerate n).m.player.inhibit = loaded := by
    rw [hplayer, hloaded]
    rfl
  have hlock : laserClear (r₀.2.start tail backward accelerate n).m.player.lock := by
    rw [hplayer]
    exact hlocked
  generalize (r₀.2.start tail backward accelerate n).m.player = p at *
  subst hcount hmask
  refine ⟨?_, ⟨ph, qs, ph', htrack, ?_⟩, ?_, ?_⟩
  · intro pre post hsplit hnext
    have hmoving : p.dir ≠ 0 := by
      rw [hdir]
      split <;> decide
    have hmailbox : args.mailboxPhys = p.mailbox := (congrArg Wiring.mailbox hwired).symm
    rw [hmailbox]
    exact htrack.signals (hwired ▸ hapart) hmoving hsplit hnext
  · intro k q hk
    exact (htrack.turn hk).inhibit
  · have hlength : (reads r.1).length = qs.length := by
      rw [htrack.reads_eq, List.length_map]
    rw [hlength]
    exact htrack.inhibit
  · rintro rfl rfl pre a b post hsplit hmotion
    obtain ⟨q, fs, hq, hpost⟩ := htrack.at_read hsplit
    obtain ⟨hleft, hinhibit, hqdir, hqwiring, hqlock⟩ := htrack.turn hq
    have hpulse : b = q.pulse := by
      injection (List.cons_eq_cons.mp hpost).1
    have hforward : q.backward = false := by
      rw [backward, hqdir, hdir]
      decide
    rw [hpulse] at hmotion
    obtain ⟨w₁, w₂, rest, hword, hlaser⟩ := laser_consume hforward (hqlock hlock) hmotion
    have hgpio : q.gpio = args.gpioBase := congrArg Wiring.gpio (hqwiring.trans hwired)
    refine ⟨w₁, w₂, rest ++ fs, ?_, ?_⟩
    · rw [hword, hgpio] at hpost
      exact (List.cons_eq_cons.mp hpost).2
    · intro i hi
      rw [hlaser i hi, hinhibit, hpulse, hloaded]
      unfold inhibitLeft
      have hcovered : bit laserInhibitBits i = true := by
        rcases hi with rfl | rfl <;> decide
      have hlifted : bit (0 : Word) i = false := bit_zero i
      split
      · rename_i hpassed
        simp [hpassed]
      · rename_i hahead
        simp [hahead, hcovered]

private def lit : ScriptArgs := .over fun _ => 0x10

/-- A resume over two bytes that counts one. -/
theorem waypoint_is_exact_resume :
    ∃ r, System.execute Config.host [.tick 200, .tick 200, .tick 200]
        ((loadSdmaScript lit).start 2 false true 1) = some r ∧
      (reads r.1).length = 2 ∧ waypointSignals 0x21000000 r.1 = 1 ∧ r.2.m.word 20 = 0 := by
  have hrun : (System.execute Config.host [.tick 200, .tick 200, .tick 200]
      ((loadSdmaScript lit).start 2 false true 1)).map (fun r => (reads r.1).length) = some 2 := by
    decide +kernel
  obtain ⟨r, hexec, hplayed⟩ := Option.map_eq_some_iff.mp hrun
  have hapart : lit.wiring.MailboxApart := ⟨by decide, by decide, by decide⟩
  have hloaded : System.execute Config.host [] (loadSdmaScript lit) = some ([], loadSdmaScript lit) :=
    rfl
  obtain ⟨hsignals, -, hinhibit, -⟩ := waypoint_is_exact hapart (by simp) hloaded rfl
    (by simp [HostAction.continues, HostAction.sparesLaser]) hexec
  refine ⟨r, hexec, hplayed, ?_, ?_⟩
  · have hone := hsignals r.1 [] (List.append_nil r.1).symm (.inl rfl)
    rw [if_pos ⟨by decide, by rw [hplayed]; decide⟩] at hone
    exact hone
  · rw [hinhibit, if_pos ⟨by decide, by rw [hplayed]; decide⟩]

/-- A resume that counts no bytes keeps the laser off for bytes that ask for it. -/
theorem waypoint_is_exact_uncounted :
    ∃ r w₁ w₂ pre post, System.execute Config.host [.tick 200, .tick 200]
        ((loadSdmaScript lit).start 1 false true 0) = some r ∧
      r.1 = pre ++ .read 0x20000000 0x10 :: .write 0x0209C000 w₁ :: .write 0x0209C000 w₂ :: post ∧
      bit (0x10 : Byte) 4 = true ∧ bit w₂ 30 = false ∧ bit w₂ 31 = false := by
  have hrun : (System.execute Config.host [.tick 200, .tick 200]
      ((loadSdmaScript lit).start 1 false true 0)).map Prod.fst =
      some ([.write 0x020D0004 1, .write 0x020D0004 1] ++ .read 0x20000000 0x10 ::
        .write 0x0209C000 0xC0000 :: .write 0x0209C000 0xC0000 :: [.write 0x0209C000 0xC0000]) := by
    decide +kernel
  obtain ⟨r, hexec, hevents⟩ := Option.map_eq_some_iff.mp hrun
  exact ⟨r, 0xC0000, 0xC0000, _, _, hexec, hevents, by decide, by decide, by decide⟩

end Glowforge.Sdma
