import Glowforge.Sdma.LaserGate

/-! Parking. From the moment the script finds head and tail equal under the mask it reads
no byte and keeps its pins low, whatever tail the host publishes, and it signals the end
of data at once and at least once in every 510 ticks, until a run is started. -/
namespace Glowforge.Sdma
open Foundation Engine Player

/-! Bit 0 of r1, which the unconditional jumps test, is set from the first instruction of
the script on. -/

def Instr.dest {L : Type} : Instr L → Option Reg
  | .ldi r _ | .mov r _ | .add r _ | .and r _ | .andn r _ | .addi r _ | .subi r _ | .andi r _
  | .xori r _ | .bseti r _ | .bclri r _ | .ld r _ _ | .ldf r _ => some r
  | .btsti _ _ | .cmpeq _ _ | .cmpeqi _ _ | .st _ _ _ | .stf _ _ | .bt _ | .bf _ | .loop _ _
  | .done _ | .notify _ => none

def Instr.keepsLive {L : Type} (i : Instr L) : Bool :=
  i.dest != some .r1 ||
    match i with
    | .ldi _ v => bit v 0
    | .mov _ s => s == .r1
    | .bseti _ n => decide (n < 32)
    | .bclri _ n => decide (0 < n ∧ n < 32)
    | _ => false

theorem block_keepsLive (l : Label) : l.block.all Instr.keepsLive = true := by
  cases l <;> decide

theorem exec_r1 {L : Type} {i : Instr L} (h : i.dest ≠ some .r1) (m : Machine) :
    (i.exec m).2.r1 = m.r1 := by
  have hset {r : Reg} (hr : some r ≠ some Reg.r1) (m : Machine) (v : Word) :
      (m.set r v).r1 = m.r1 := by
    cases r <;> first | rfl | exact absurd rfl hr
  cases i with
  | ldi r v => exact hset h m _
  | mov r s => exact hset h m _
  | add r s => exact hset h m _
  | and r s => exact hset h m _
  | andn r s => exact hset h m _
  | addi r v => exact hset h m _
  | subi r v => exact hset h m _
  | andi r v => exact hset h m _
  | xori r v => exact hset h m _
  | bseti r n => exact hset h m _
  | bclri r n => exact hset h m _
  | ld r b d => exact hset h m _
  | ldf r u =>
      simp only [Instr.exec]
      split
      · exact hset h m _
      · split
        · exact hset h m _
        · split
          · exact hset h m _
          · rfl
  | stf r u =>
      simp only [Instr.exec]
      repeat' split
      all_goals rfl
  | _ => rfl

theorem live_exec {L : Type} {i : Instr L} (hi : i.keepsLive = true) {m : Machine}
    (hm : bit m.r1 0 = true) : bit (i.exec m).2.r1 0 = true := by
  by_cases hdest : i.dest = some .r1
  · unfold Instr.keepsLive at hi
    rw [hdest] at hi
    cases i <;> simp only [Instr.dest, Option.some.injEq, reduceCtorEq] at hdest <;> subst hdest <;>
      simp_all [Instr.exec, Machine.set, Machine.get]
    omega
  · rw [exec_r1 hdest]
    exact hm

theorem live_repeatBody {L : Type} {body : List (Instr L)} (hbody : body.all Instr.keepsLive = true)
    (n : Nat) {m : Machine} (hm : bit m.r1 0 = true) : bit (repeatBody body n m).2.r1 0 = true := by
  have honce (body : List (Instr L)) (hbody : ∀ i ∈ body, i.keepsLive = true)
      (acc : List Event × Machine) (hacc : bit acc.2.r1 0 = true) :
      bit (body.foldl (fun acc i => (acc.1 ++ (i.exec acc.2).1, (i.exec acc.2).2)) acc).2.r1 0 =
        true := by
    induction body generalizing acc with
    | nil => exact hacc
    | cons i body ih =>
        rw [List.foldl_cons]
        apply ih (fun j hj => hbody j (List.mem_cons_of_mem i hj))
        exact live_exec (hbody i List.mem_cons_self) hacc
  induction n generalizing m with
  | zero => exact hm
  | succ n ih =>
      unfold repeatBody
      exact ih (honce body (List.all_eq_true.mp hbody) ([], m) hm)

/-- The jumps go where they should, here and in what is left of the block. -/
def Live (c : Config Label) : Prop :=
  bit c.m.r1 0 = true ∧ c.rest.all Instr.keepsLive = true

theorem live_goto (l : Label) {m : Machine} (h : bit m.r1 0 = true) : Live (script.goto l m) :=
  ⟨h, block_keepsLive l⟩

theorem Live.step {c : Config Label} {sig : Signal Event (Config Label)} (h : Live c)
    (hstep : script.step c = some sig) : Live sig.state := by
  obtain ⟨hm, hrest⟩ := h
  unfold Program.step at hstep
  split at hstep
  · obtain ⟨l, hl, rfl⟩ := Option.map_eq_some_iff.mp hstep
    exact live_goto l hm
  · rename_i l rest heq
    rw [heq, List.all_cons] at hrest
    cases hstep
    simp only [Signal.state]
    split
    · exact live_goto l hm
    · exact ⟨hm, ((Bool.and_eq_true _ _).mp hrest).2⟩
  · rename_i l rest heq
    rw [heq, List.all_cons] at hrest
    cases hstep
    simp only [Signal.state]
    split
    · exact ⟨hm, ((Bool.and_eq_true _ _).mp hrest).2⟩
    · exact live_goto l hm
  · rename_i l f body heq
    rw [heq, List.all_cons] at hrest
    cases hstep
    exact live_goto l (live_repeatBody ((Bool.and_eq_true _ _).mp hrest).2 _ hm)
  · rename_i j rest heq
    rw [heq, List.all_cons] at hrest
    cases hstep
    exact ⟨hm, ((Bool.and_eq_true _ _).mp hrest).2⟩
  · rename_i i rest _ _ _ _ heq
    rw [heq, List.all_cons] at hrest
    obtain ⟨hi, hrest'⟩ := (Bool.and_eq_true _ _).mp hrest
    cases hstep
    exact ⟨live_exec hi hm, hrest'⟩

theorem Live.runs {stop : Config Label → Bool} {n : Nat} {c c' : Config Label} {es : List Event}
    (h : Live c) (hruns : Runs script.step stop n c es c') : Live c' := by
  induction hruns with
  | refl n c => exact h
  | head hgo hstep _ ih => exact ih (h.step hstep)

theorem live_of_waits {ph : Phase} {c c' : Config Label} (hw : ph.Waits c) {n : Nat}
    {es : List Event} (hruns : Runs script.step (fun _ => false) n c es c') :
    c' = c ∨ Live c' := by
  cases hruns with
  | refl n c => exact .inl rfl
  | @head n c c₁ c' out es hgo hstep hrest =>
      right
      apply Live.runs _ hrest
      cases ph with
      | boot =>
          have hone : bit (1 : Word) 0 = true := by decide
          rw [hw] at hstep
          cases hstep
          exact ⟨hone, rfl⟩
      | ready =>
          have hlive : Live c := by
            obtain ⟨hlive, -, hc | hc⟩ := hw <;> rw [hc] <;> exact ⟨hlive, rfl⟩
          exact hlive.step hstep
      | parked =>
          have hlive : Live c := by
            obtain ⟨hlive, hc⟩ := hw
            rw [hc]
            exact ⟨hlive, rfl⟩
          exact hlive.step hstep

/-! The parked script. -/

/-- What the host may do and leave the script parked: not start a run, nor clear the
counters. -/
def staysParked : HostAction → Prop
  | .start _ _ _ _ | .clear _ _ => False
  | _ => True

def isTick : HostAction → Nat
  | .tick _ => 1
  | _ => 0

def Player.place (p : Player) : (Word × Word × Word) × (Word × Word) × Word × Word :=
  ((p.x, p.y, p.z), (p.bytes, p.head), p.gpio, p.mailbox)

/-- The script is parked, where `p` came to the end of its data. -/
structure Parked (p : Player) (c : Config Label) : Prop where
  waits : ∃ ph : Phase, ph ≠ .boot ∧ ph.Waits c ∧ (ph = .ready → c.m.player.flags = 1)
  dir : c.m.player.dir = 0
  waypoint : c.m.player.waypoint = 0
  data : c.m.player.data.toNat < 255
  place : c.m.player.place = p.place

/-- The ticks left before the next signal, but for one. -/
def silence (c : Config Label) : Nat :=
  2 * (255 - c.m.r2.toNat) - if c.here = .alldoneWait then 1 else 2

def linesLow (w : Word) : Prop := ∀ n ∈ [30, 31, 22, 20, 29, 21], bit w n = false

instance (w : Word) : Decidable (linesLow w) := inferInstanceAs (Decidable (∀ n ∈ _, _))

/-- What a parked script does to its surroundings: it reads no byte, keeps the lines low
and leaves 1 in the mailbox. -/
def Event.safe (mailbox : Word) : Event → Prop
  | .read _ _ => False
  | .write addr w => linesLow w ∧ (addr = mailbox → w = 1)
  | .notify _ => True

theorem linesLow_parkedPins (w : Word) : linesLow (parkedPins w) := by
  intro n hn
  simp only [List.mem_cons, List.not_mem_nil, or_false] at hn
  unfold parkedPins
  rcases hn with rfl | rfl | rfl | rfl | rfl | rfl <;> simp

theorem linesLow_one : linesLow 1 := by decide

theorem place_mailbox {p p' : Player} (h : p'.place = p.place) : p'.mailbox = p.mailbox :=
  congrArg (fun place => place.2.2.2) h

theorem place_gpio {p p' : Player} (h : p'.place = p.place) : p'.gpio = p.gpio :=
  congrArg (fun place => place.2.2.1) h

private theorem park_again {p : Player} (hdir : p.dir = 0) (hdata : p.data.toNat < 255) :
    p.data.toNat = 254 ∧ p.park = ([.write p.gpio (parkedPins p.pins), .notify 3],
      { p with pins := parkedPins p.pins, data := 0 }) ∨
    p.data.toNat < 254 ∧ p.park = ([.write p.gpio (parkedPins p.pins)],
      { p with pins := parkedPins p.pins, data := p.data + 1 }) := by
  unfold Player.park
  simp only [if_pos hdir]
  by_cases hlast : p.data + 1 = 255
  · have hcount : p.data.toNat = 254 := by bv_omega
    rw [if_pos hlast]
    exact .inl ⟨hcount, rfl⟩
  · have hcount : p.data.toNat < 254 := by bv_omega
    rw [if_neg hlast]
    exact .inr ⟨hcount, rfl⟩

theorem Parked.tick {p : Player} {c : Config Label} (h : Parked p c)
    (hapart : p.mailbox ≠ p.gpio) {fuel : Nat} {r : List Event × Config Label}
    (hexec : exec script.step fuel c = some r) :
    Parked p r.2 ∧ (∀ e ∈ r.1, e.safe p.mailbox) ∧
      ((∃ e ∈ r.1, e = .notify 3) ∨ silence r.2 + 1 ≤ silence c) := by
  obtain ⟨ph, hboot, hw, hflags⟩ := h.waits
  have hdata := h.data
  obtain ⟨n, ph', htick, hw'⟩ := tick_of_exec hw hexec
  generalize hp' : r.2.m.player = p' at htick
  generalize r.1 = es at htick ⊢
  cases htick with
  | restart hph =>
      have hhere : c.here = .alldoneWait := by
        cases ph with
        | boot => exact absurd rfl hboot
        | ready => exact absurd rfl hph
        | parked => rw [hw.2]
      have hhere' : r.2.here ≠ .alldoneWait := by
        obtain ⟨-, -, hc | hc⟩ := hw' <;> rw [hc] <;> exact Label.noConfusion
      have hdata' : r.2.m.r2 = c.m.r2 := congrArg Player.data hp'
      refine ⟨⟨⟨.ready, by decide, hw', fun _ => by rw [hp']⟩, ?_, ?_, ?_, ?_⟩, ?_, .inr ?_⟩
      · rw [hp']
        exact h.dir
      · rw [hp']
        exact h.waypoint
      · rw [hp']
        exact hdata
      · rw [hp']
        exact h.place
      · intro e he
        rw [List.mem_singleton.mp he]
        exact ⟨linesLow_one, fun _ => rfl⟩
      · have : c.m.r2.toNat < 255 := hdata
        rw [silence, silence, if_pos hhere, if_neg hhere', hdata']
        omega
  | play hdrains =>
      cases hdrains with
      | last hbusy hlast => exact absurd (.inl h.dir) hbusy
      | more hbusy hmore hrest => exact absurd (.inl h.dir) hbusy
      | park hidle =>
          have hhere : c.here ≠ .alldoneWait := by
            obtain ⟨-, -, hc | hc⟩ := hw <;> rw [hc] <;> exact Label.noConfusion
          have hhere' : r.2.here = .alldoneWait := by rw [hw'.2]
          have hback : ∃ ph : Phase, ph ≠ .boot ∧ ph.Waits r.2 ∧
              (ph = .ready → r.2.m.player.flags = 1) :=
            ⟨.parked, by decide, hw', fun hready => nomatch hready⟩
          have hack : (Event.write c.m.player.epit c.m.player.flags).safe p.mailbox := by
            rw [hflags rfl]
            exact ⟨linesLow_one, fun _ => rfl⟩
          have hpins : (Event.write c.m.player.gpio (parkedPins c.m.player.pins)).safe p.mailbox := by
            refine ⟨linesLow_parkedPins _, ?_⟩
            intro heq
            rw [place_gpio h.place] at heq
            exact absurd heq.symm hapart
          have hcount : c.m.r2.toNat < 255 := hdata
          have hzero : (0 : Word).toNat < 255 := by decide
          rcases park_again h.dir hdata with ⟨hlast, hpark⟩ | ⟨hmore, hpark⟩
          · rw [hpark] at hp' ⊢
            refine ⟨⟨hback, ?_, ?_, ?_, ?_⟩, ?_, .inl ⟨.notify 3, by simp, rfl⟩⟩
            · rw [hp']
              exact h.dir
            · rw [hp']
              exact h.waypoint
            · rw [hp']
              exact hzero
            · rw [hp']
              exact h.place
            · simp only [List.forall_mem_cons, List.not_mem_nil, false_implies, implies_true]
              exact ⟨hack, hpins, trivial, trivial⟩
          · rw [hpark] at hp' ⊢
            have hdata' : r.2.m.r2 = c.m.r2 + 1 := congrArg Player.data hp'
            have hbelow : c.m.r2.toNat < 254 := hmore
            have hnext : (c.m.r2 + 1).toNat = c.m.r2.toNat + 1 := by bv_omega
            refine ⟨⟨hback, ?_, ?_, ?_, ?_⟩, ?_, .inr ?_⟩
            · rw [hp']
              exact h.dir
            · rw [hp']
              exact h.waypoint
            · change r.2.m.r2.toNat < 255
              rw [hdata', hnext]
              omega
            · rw [hp']
              exact h.place
            · simp only [List.forall_mem_cons, List.not_mem_nil, false_implies, implies_true]
              exact ⟨hack, hpins, trivial⟩
            · rw [silence, silence, if_neg hhere, if_pos hhere', hdata', hnext]
              omega

theorem Parked.host {p : Player} {c : Config Label} (h : Parked p c)
    (hapart : p.mailbox ≠ p.gpio) {a : HostAction} (ha : staysParked a)
    {r : List Event × Config Label} (hstep : c.host a = some r) :
    Parked p r.2 ∧ (∀ e ∈ r.1, e.safe p.mailbox) ∧
      ((∃ e ∈ r.1, e = .notify 3) ∨ silence r.2 + isTick a ≤ silence c) := by
  obtain ⟨ph, hboot, hw, hflags⟩ := h.waits
  have hquiet : ∀ e ∈ ([] : List Event), e.safe p.mailbox := fun e he => absurd he List.not_mem_nil
  cases a with
  | tick fuel => exact h.tick hapart hstep
  | start tail backward accelerate numSteps => exact ha.elim
  | clear data position => exact ha.elim
  | publishTail tail =>
      cases hstep
      refine ⟨⟨⟨ph, hboot, hw.withMachine rfl, ?_⟩, ?_, ?_, ?_, ?_⟩, hquiet, .inr le_rfl⟩
      all_goals rw [player_publishTail]
      · exact hflags
      · exact h.dir
      · exact h.waypoint
      · exact h.data
      · exact h.place
  | setMotorLock bits =>
      cases hstep
      refine ⟨⟨⟨ph, hboot, hw.withMachine rfl, ?_⟩, ?_, ?_, ?_, ?_⟩, hquiet, .inr le_rfl⟩
      all_goals rw [player_setMotorLock]
      · exact hflags
      · exact h.dir
      · exact h.waypoint
      · exact h.data
      · exact h.place
  | store addr b =>
      cases hstep
      exact ⟨⟨⟨ph, hboot, hw.withMachine rfl, hflags⟩, h.dir, h.waypoint, h.data, h.place⟩, hquiet,
        .inr le_rfl⟩

theorem parked_first {m : Machine} (hlive : m.player.live) (hdir : m.player.dir ≠ 0)
    (hequal : m.player.head &&& m.player.mask = m.player.tail &&& m.player.mask) {fuel : Nat}
    {es : List Event} {c : Config Label}
    (hexec : exec script.step fuel (script.goto .fifoConsumeByteNoIflagClear m) = some (es, c)) :
    es = [.write m.player.gpio (parkedPins m.player.pins), .write m.player.mailbox 1, .notify 3] ∧
      Parked m.player c := by
  have hidle : m.player.idle := .inr (.inr hequal)
  obtain ⟨m', hfirst, hp'⟩ := exec_idle hidle hlive
  have hpark : m.player.park =
      ([.write m.player.gpio (parkedPins m.player.pins), .write m.player.mailbox 1, .notify 3],
        { m.player with
          pins := parkedPins m.player.pins, dir := 0, waypoint := 0, data := 0 }) := by
    unfold Player.park
    simp only [if_neg hdir]
  cases exec_unique hfirst hexec
  rw [hpark] at hp' ⊢
  have hlive' : m'.player.live := by
    rw [hp']
    exact hlive
  refine ⟨rfl, ⟨.parked, by decide, ⟨hlive', rfl⟩, fun hready => nomatch hready⟩, ?_, ?_, ?_, ?_⟩
  · change m'.player.dir = 0
    rw [hp']
  · change m'.player.waypoint = 0
    rw [hp']
  · have hzero : (0 : Word).toNat < 255 := by decide
    change m'.player.data.toNat < 255
    rw [hp']
    exact hzero
  · change m'.player.place = _
    rw [hp']
    rfl

theorem Parked.run {p : Player} {c : Config Label} (h : Parked p c)
    (hapart : p.mailbox ≠ p.gpio) {as : List HostAction} (has : ∀ a ∈ as, staysParked a)
    {r : List Event × Config Label} (hexec : System.execute Config.host as c = some r) :
    Parked p r.2 ∧ ∀ e ∈ r.1, e.safe p.mailbox :=
  System.execute_guarded (fun _ _ _ hinv ha hstep =>
    ⟨(hinv.host hapart ha hstep).1, (hinv.host hapart ha hstep).2.1⟩) h
    (System.along_of_forall has c) hexec

theorem Parked.signals {p : Player} {c : Config Label} (h : Parked p c)
    (hapart : p.mailbox ≠ p.gpio) {as : List HostAction} (has : ∀ a ∈ as, staysParked a)
    {r : List Event × Config Label} (hexec : System.execute Config.host as c = some r)
    (hticks : 510 ≤ (as.map isTick).sum) : .notify 3 ∈ r.1 := by
  have hsilence : silence c < 510 := by
    unfold silence
    split <;> omega
  obtain ⟨e, he, rfl⟩ := System.execute_emits (P := fun e => e = .notify 3)
    (fun _ _ _ hinv ha hstep =>
      ⟨(hinv.host hapart ha hstep).1, (hinv.host hapart ha hstep).2.2⟩) h
    (System.along_of_forall has c) hexec (Nat.lt_of_lt_of_le hsilence hticks)
  exact he

/-- From the moment within a tick at which the script finds head and tail equal, and until
a run is started: the tick comes to its end, having forced the lines low, set the mailbox and
signalled the end of data; from there on no byte is read, every word written keeps the lines low
and the mailbox at 1, the counters stay and the waypoint counter is zero, and 510 ticks never
pass without a signal. -/
theorem parking_is_safe {args : ScriptArgs} (hapart : args.mailboxPhys ≠ args.gpioBase)
    {c₀ : Config Label} (hreach : System.Reachable Config.host (loadSdmaScript args) c₀)
    {n : Nat} {pre : List Event} {m : Machine}
    (hmoment : Runs script.step (fun _ => false) n c₀ pre
      (script.goto .fifoConsumeByteNoIflagClear m))
    (hdir : m.word 30 ≠ 0) (hequal : m.word 28 &&& m.r4 = m.word 29 &&& m.r4) :
    ∃ es c,
      (∀ fuel ≥ 41,
        exec script.step fuel (script.goto .fifoConsumeByteNoIflagClear m) = some (es, c)) ∧
      (∃ w, linesLow w ∧
        es = [.write args.gpioBase w, .write args.mailboxPhys 1, .notify 3]) ∧
      ∀ as q, (∀ a ∈ as, staysParked a) → System.execute Config.host as c = some q →
        (∀ e ∈ q.1, e.safe args.mailboxPhys) ∧
        (∀ d ∈ [24, 25, 26, 27, 28], q.2.m.word d = m.word d) ∧
        q.2.m.word 31 = 0 ∧
        ∀ bs r, (∀ a ∈ bs, staysParked a) → System.execute Config.host bs q.2 = some r →
          510 ≤ (bs.map isTick).sum → .notify 3 ∈ r.1 := by
  obtain ⟨ph, hw⟩ := waits_host_reachable hreach
  have hlive : m.player.live := by
    rcases live_of_waits hw hmoment with hsame | hlive
    · rw [← hsame] at hw
      cases ph with
      | boot => exact absurd (congrArg Config.here hw) Label.noConfusion
      | ready =>
          obtain ⟨hlive, -⟩ := hw
          exact hlive
      | parked => exact hw.1
    · exact hlive.1
  obtain ⟨m', htick, -⟩ := exec_idle (.inr (.inr hequal)) hlive
  obtain ⟨hes, hparks⟩ := parked_first hlive hdir hequal htick
  -- the addresses are those of the tick boundary
  have hwhole := exec_of_runs hmoment htick
  obtain ⟨k, ph', hwholeTick, -⟩ := tick_of_exec hw hwhole
  have hgpio₀ := congrArg Wiring.gpio (wiring_reachable hreach)
  have hmailbox₀ := congrArg Wiring.mailbox (wiring_reachable hreach)
  have hgpio : m.player.gpio = args.gpioBase :=
    (place_gpio hparks.place).symm.trans ((congrArg Setup.gpio hwholeTick.setup).trans hgpio₀)
  have hmailbox : m.player.mailbox = args.mailboxPhys :=
    (place_mailbox hparks.place).symm.trans
      ((congrArg Setup.mailbox hwholeTick.setup).trans hmailbox₀)
  have hapart' : m.player.mailbox ≠ m.player.gpio := by
    rw [hgpio, hmailbox]
    exact hapart
  rw [hgpio, hmailbox] at hes
  refine ⟨_, _, fun _ => exec_mono htick, ⟨_, linesLow_parkedPins _, hes⟩, ?_⟩
  intro as q hparked hexec
  obtain ⟨hparks', hsafe⟩ := hparks.run hapart' hparked hexec
  rw [hmailbox] at hsafe
  refine ⟨hsafe, ?_, hparks'.waypoint, ?_⟩
  · have hplace := hparks'.place
    simp only [Player.place, Prod.mk.injEq] at hplace
    obtain ⟨⟨hx, hy, hz⟩, ⟨hbytes, hhead⟩, -, -⟩ := hplace
    simp only [List.forall_mem_cons, List.not_mem_nil, false_implies, implies_true]
    exact ⟨hx, hy, hz, hbytes, hhead, trivial⟩
  · intro bs r hbs hexec' hticks
    exact hparks'.signals hapart' hbs hexec' hticks

/-- A run of one byte comes to its end. -/
theorem parking_is_safe_oneByte :
    ∃ c₀ n pre m es c, System.Reachable Config.host (loadSdmaScript (.over fun _ => 1)) c₀ ∧
      Runs script.step (fun _ => false) n c₀ pre (script.goto .fifoConsumeByteNoIflagClear m) ∧
      exec script.step 41 (script.goto .fifoConsumeByteNoIflagClear m) = some (es, c) ∧
      (∃ w, linesLow w ∧ es = [.write 0x0209C000 w, .write 0x21000000 1, .notify 3]) ∧
      ∀ bs r, (∀ a ∈ bs, staysParked a) → System.execute Config.host bs c = some r →
        510 ≤ (bs.map isTick).sum → .notify 3 ∈ r.1 := by
  have hrun : (System.execute Config.host [.start 1 false false 0, .tick 200, .tick 200]
      (loadSdmaScript (.over fun _ => 1))).map (fun r => (midRun r.2, r.2.m.word 30,
        r.2.m.word 28 &&& r.2.m.r4, r.2.m.word 29 &&& r.2.m.r4)) = some (true, 1, 1, 1) := by
    decide +kernel
  obtain ⟨r, hexec, hseen⟩ := Option.map_eq_some_iff.mp hrun
  injection hseen with hmid hseen
  injection hseen with hdir hseen
  injection hseen with hhead htail
  have hreach : System.Reachable Config.host (loadSdmaScript (.over fun _ => 1)) r.2 :=
    ⟨_, _, hexec⟩
  obtain ⟨ph, hw⟩ := waits_host_reachable hreach
  cases ready_of_midRun hw hmid
  obtain ⟨m, hruns, hp⟩ := ready_runs hw
  have hdir' : m.word 30 = 1 := (congrArg Player.dir hp).trans hdir
  have hequal : m.word 28 &&& m.r4 = m.word 29 &&& m.r4 := by
    have hhead' : m.word 28 &&& m.r4 = 1 := (congrArg (fun p => p.head &&& p.mask) hp).trans hhead
    have htail' : m.word 29 &&& m.r4 = 1 := (congrArg (fun p => p.tail &&& p.mask) hp).trans htail
    rw [hhead', htail']
  obtain ⟨es, c, htick, hes, hparked⟩ :=
    parking_is_safe (by decide) hreach hruns.unstopped (by rw [hdir']; decide) hequal
  have hnone : ∀ a ∈ ([] : List HostAction), staysParked a := fun a ha => absurd ha List.not_mem_nil
  exact ⟨r.2, _, _, m, es, c, hreach, hruns.unstopped, htick 41 le_rfl, hes,
    (hparked [] _ hnone rfl).2.2.2⟩

end Glowforge.Sdma
