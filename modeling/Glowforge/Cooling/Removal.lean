import Glowforge.Foundation.System
import Mathlib.Data.List.Infix
import Mathlib.Logic.Function.Basic

/-! The heat sources of the cooling loop (`thermal.c`) while the driver goes away. The
attribute writers and the soft PWM of the heater take their steps between those of
`thermal_remove`, and each of them drives the pins by itself. -/
namespace Glowforge.Cooling
open Foundation

inductive Pin where
  | waterPump
  | waterHeater
  | tec
  deriving DecidableEq, Repr

inductive Errno where
  | EINVAL
  | ERANGE
  deriving DecidableEq, Repr

abbrev Duty := BitVec 16

def heaterDutyMax : Duty := 0xFFFF

/-- A step of `thermal_make_safe` or `thermal_remove`. -/
inductive Op where
  | setHeaterDutyFraction (duty : Duty)
  | changePin (pin : Pin) (value : Bool)
  | unregisterNotifier
  | cancelTimer
  | removeLink
  | removeGroup
  | releasePwms
  | teardownTachs
  | releaseGpios
  deriving DecidableEq, Repr

def thermalSafePinChanges : List (Pin × Bool) := [(.waterHeater, false), (.tec, false)]

def ioChangePins (changes : List (Pin × Bool)) : List Op := changes.map fun c => .changePin c.1 c.2

def thermalMakeSafe : List Op :=
  .setHeaterDutyFraction 0 :: ioChangePins thermalSafePinChanges

def thermalRemove : List Op :=
  thermalMakeSafe ++ [.unregisterNotifier, .cancelTimer, .removeLink, .removeGroup, .releasePwms,
    .teardownTachs, .releaseGpios]

/-- What a running `heater_pwm_timer_cb` has read: the duty, and then the pin. -/
inductive Callback where
  | duty (duty : Duty)
  | level (duty : Duty) (level : Bool)
  deriving DecidableEq, Repr

def Callback.read : Callback → Duty
  | .duty d => d
  | .level d _ => d

def newGpioLevel (duty : Duty) (level : Bool) : Bool :=
  if duty = 0 ∨ duty = heaterDutyMax then decide (duty ≠ 0) else !level

/-- `struct thermal`, with the pins, what is registered, and what is left to do of the removal. -/
structure Thermal where
  pins : Pin → Bool
  heaterDutyFraction : Duty
  armed : Bool
  callback : Option Callback
  group : Bool
  removal : List Op

/-- What a step shows: a pin driven, or an error return. -/
inductive Obs where
  | drove (pin : Pin) (level : Bool)
  | failed (e : Errno)
  deriving DecidableEq, Repr

inductive Action where
  | heaterPwmStore (value : Except Errno Nat)
  | waterPumpOnStore (buf : List Char)
  | tecOnStore (buf : List Char)
  | timerFires
  | timerReads
  | timerSets
  | removes

namespace Thermal

/-- `thermal_probe`: the pump runs, the heat sources are off. -/
def probe : Thermal where
  pins := fun p => decide (p = .waterPump)
  heaterDutyFraction := 0
  armed := true
  callback := none
  group := true
  removal := thermalRemove

def setPin (s : Thermal) (p : Pin) (level : Bool) : List Obs × Thermal :=
  ([.drove p level], { s with pins := Function.update s.pins p level })

/-- The stores of `DEFINE_GPIO_ATTR`. -/
def gpioStore (s : Thermal) (pin : Pin) : List Char → List Obs × Thermal
  | [] => ([.failed .EINVAL], s)
  | ch :: _ =>
      if ch ≠ '0' ∧ ch ≠ '1' then ([.failed .EINVAL], s) else s.setPin pin (ch == '1')

def waterPumpOnStore (s : Thermal) : List Char → List Obs × Thermal := s.gpioStore .waterPump

def tecOnStore (s : Thermal) : List Char → List Obs × Thermal := s.gpioStore .tec

def heaterPwmStore (s : Thermal) : Except Errno Nat → List Obs × Thermal
  | .error e => ([.failed e], s)
  | .ok newValue =>
      if newValue > heaterDutyMax.toNat then ([.failed .EINVAL], s)
      else ([], { s with heaterDutyFraction := BitVec.ofNat 16 newValue })

/-- The timer is cancelled once its callback has returned. -/
def runOp (s : Thermal) : Op → Option (List Obs × Thermal)
  | .setHeaterDutyFraction duty => some ([], { s with heaterDutyFraction := duty })
  | .changePin pin value => some (s.setPin pin value)
  | .cancelTimer => if s.callback = none then some ([], { s with armed := false }) else none
  | .removeGroup => some ([], { s with group := false })
  | .unregisterNotifier | .removeLink | .releasePwms | .teardownTachs | .releaseGpios =>
      some ([], s)

/-- The attributes are there to be written until their group is removed. -/
def step (s : Thermal) : Action → Option (List Obs × Thermal)
  | .heaterPwmStore value => if s.group then some (s.heaterPwmStore value) else none
  | .waterPumpOnStore buf => if s.group then some (s.waterPumpOnStore buf) else none
  | .tecOnStore buf => if s.group then some (s.tecOnStore buf) else none
  | .timerFires =>
      match s.armed, s.callback with
      | true, none => some ([], { s with callback := some (.duty s.heaterDutyFraction) })
      | _, _ => none
  | .timerReads =>
      match s.callback with
      | some (.duty d) => some ([], { s with callback := some (.level d (s.pins .waterHeater)) })
      | _ => none
  | .timerSets =>
      match s.callback with
      | some (.level d l) =>
          let r := s.setPin .waterHeater (newGpioLevel d l)
          some (r.1, { r.2 with callback := none })
      | _ => none
  | .removes =>
      match s.removal with
      | op :: ops => (s.runOp op).map fun r => (r.1, { r.2 with removal := ops })
      | [] => none

end Thermal

theorem newGpioLevel_low (d : Duty) (level : Bool) :
    newGpioLevel d level = false ↔ d = 0 ∨ (d ≠ heaterDutyMax ∧ level = true) := by
  by_cases hzero : d = 0
  · rw [newGpioLevel, if_pos (.inl hzero)]
    simp [hzero]
  · by_cases hmax : d = heaterDutyMax
    · rw [newGpioLevel, if_pos (.inr hmax), decide_eq_false_iff_not]
      exact iff_of_false (fun h => h hzero) (fun h => h.elim hzero fun hboth => hboth.1 hmax)
    · rw [newGpioLevel, if_neg (not_or.mpr ⟨hzero, hmax⟩), Bool.not_eq_false']
      exact ⟨fun h => .inr ⟨hmax, h⟩, fun h => (h.resolve_left hzero).2⟩

/-- The level each pin was last driven to. -/
def drive (g : Pin → Option Bool) : Obs → Pin → Option Bool
  | .drove pin level => Function.update g pin (some level)
  | .failed _ => g

def lastDriven (out : List Obs) : Pin → Option Bool := out.foldl drive fun _ => none

def Callback.Cold : Callback → Prop
  | .duty d => d = 0
  | .level d l => d = 0 ∨ (d ≠ heaterDutyMax ∧ l = true)

instance : DecidablePred Callback.Cold
  | .duty d => inferInstanceAs (Decidable (d = 0))
  | .level d l => inferInstanceAs (Decidable (d = 0 ∨ (d ≠ heaterDutyMax ∧ l = true)))

namespace Thermal

/-- Once the removal has zeroed the duty no other is asked for, as long as the timer runs; once
it has driven the TEC nobody turns it on; and it drives the heater while no callback is about
to heat. -/
def LeftAlone (s : Thermal) : Action → Prop
  | .heaterPwmStore (.ok newValue) =>
      newValue = 0 ∨ heaterDutyMax.toNat < newValue ∨ .setHeaterDutyFraction 0 ∈ s.removal ∨
        s.armed = false
  | .tecOnStore (ch :: _) => ch ≠ '1' ∨ .changePin .tec false ∈ s.removal
  | .removes =>
      s.removal.head? = some (.changePin .waterHeater false) → ∀ c ∈ s.callback, c.Cold
  | _ => True

instance (s : Thermal) : DecidablePred s.LeftAlone
  | .heaterPwmStore (.ok _) => inferInstanceAs (Decidable (_ ∨ _ ∨ _ ∨ _))
  | .tecOnStore (_ :: _) => inferInstanceAs (Decidable (_ ∨ _))
  | .removes =>
      inferInstanceAs (Decidable (_ = _ → ∀ c ∈ s.callback, c.Cold))
  | .heaterPwmStore (.error _) | .tecOnStore [] | .waterPumpOnStore _ | .timerFires | .timerReads
  | .timerSets => .isTrue trivial

/-- What the removal has made safe is still safe. -/
structure Safe (g : Pin → Option Bool) (s : Thermal) : Prop where
  rest : s.removal <:+ thermalRemove
  duty : .setHeaterDutyFraction 0 ∉ s.removal → s.armed = true → s.heaterDutyFraction = 0
  callback : .changePin .waterHeater false ∉ s.removal → ∀ c ∈ s.callback, c.Cold
  low : ∀ p, p ≠ .waterPump → .changePin p false ∉ s.removal → g p = some false

variable {g : Pin → Option Bool} {s : Thermal}

theorem safe_probe : Safe (fun _ => none) probe where
  rest := List.suffix_refl _
  duty := fun hzeroed => absurd (by decide) hzeroed
  callback := fun hdriven => absurd (by decide) hdriven
  low := by
    intro p hp hdriven
    cases p with
    | waterPump => exact absurd rfl hp
    | waterHeater => exact absurd (by decide) hdriven
    | tec => exact absurd (by decide) hdriven

theorem zeroed_of_driven {ops : List Op} (h : ops <:+ thermalRemove)
    (hdriven : .changePin .waterHeater false ∉ ops) : .setHeaterDutyFraction 0 ∉ ops := by
  have hall : ∀ ops ∈ thermalRemove.tails, .changePin .waterHeater false ∉ ops →
      .setHeaterDutyFraction 0 ∉ ops := by
    decide
  exact hall ops ((List.mem_tails ops _).mpr h) hdriven

theorem Safe.gpioStore (h : Safe g s) {pin : Pin} {buf : List Char}
    (hoff : pin ≠ .waterPump → ∀ ch ∈ buf.head?, ch ≠ '1' ∨ .changePin pin false ∈ s.removal) :
    Safe ((s.gpioStore pin buf).1.foldl drive g) (s.gpioStore pin buf).2 := by
  cases buf with
  | nil => exact h
  | cons ch buf =>
      simp only [Thermal.gpioStore]
      by_cases hbad : ch ≠ '0' ∧ ch ≠ '1'
      · rw [if_pos hbad]
        exact h
      · rw [if_neg hbad]
        refine ⟨h.rest, h.duty, h.callback, ?_⟩
        intro p hp hdriven
        change Function.update g pin (some (ch == '1')) p = some false
        by_cases hself : p = pin
        · subst hself
          have hzero : ch ≠ '1' := (hoff hp ch rfl).resolve_right hdriven
          rw [Function.update_self, beq_false_of_ne hzero]
        · rw [Function.update_of_ne hself]
          exact h.low p hp hdriven

theorem Safe.heaterPwmStore (h : Safe g s) {value : Except Errno Nat}
    (halone : s.LeftAlone (.heaterPwmStore value)) :
    Safe ((s.heaterPwmStore value).1.foldl drive g) (s.heaterPwmStore value).2 := by
  cases value with
  | error e => exact h
  | ok newValue =>
      unfold Thermal.heaterPwmStore
      by_cases hlarge : newValue > heaterDutyMax.toNat
      · simp only [if_pos hlarge]
        exact h
      · simp only [if_neg hlarge]
        refine ⟨h.rest, ?_, h.callback, h.low⟩
        intro hzeroed harmed
        rcases halone with rfl | hrefused | hdue | hcancelled
        · rfl
        · exact absurd hrefused hlarge
        · exact absurd hdue hzeroed
        · exact absurd (harmed.symm.trans hcancelled) Bool.noConfusion

theorem Safe.timerFires (h : Safe g s) (harmed : s.armed = true) :
    Safe g { s with callback := some (.duty s.heaterDutyFraction) } where
  rest := h.rest
  duty := h.duty
  callback := by
    rintro hdriven c hc
    obtain rfl := Option.some.inj hc
    exact h.duty (zeroed_of_driven h.rest hdriven) harmed
  low := h.low

theorem Safe.timerReads (h : Safe g s) {d : Duty} (hread : s.callback = some (.duty d)) :
    Safe g { s with callback := some (.level d (s.pins .waterHeater)) } where
  rest := h.rest
  duty := h.duty
  callback := by
    rintro hdriven c hc
    obtain rfl := Option.some.inj hc
    exact .inl (h.callback hdriven (.duty d) hread)
  low := h.low

theorem Safe.timerSets (h : Safe g s) {d : Duty} {level : Bool}
    (hread : s.callback = some (.level d level)) :
    Safe (drive g (.drove .waterHeater (newGpioLevel d level)))
      { (s.setPin .waterHeater (newGpioLevel d level)).2 with callback := none } where
  rest := h.rest
  duty := h.duty
  callback := fun _ _ hc => nomatch hc
  low := by
    intro p hp hdriven
    by_cases hself : p = .waterHeater
    · subst hself
      have hcold : d = 0 ∨ (d ≠ heaterDutyMax ∧ level = true) :=
        h.callback hdriven (.level d level) hread
      rw [drive, Function.update_self, (newGpioLevel_low d level).mpr hcold]
    · rw [drive, Function.update_of_ne hself]
      exact h.low p hp hdriven

theorem Safe.runOp (h : Safe g s) {op : Op} {ops : List Op} {r : List Obs × Thermal}
    (hremoval : s.removal = op :: ops) (halone : s.LeftAlone .removes)
    (hop : s.runOp op = some r) :
    Safe (r.1.foldl drive g) { r.2 with removal := ops } := by
  have hrest : op :: ops <:+ thermalRemove := hremoval ▸ h.rest
  have hsuffix : ops <:+ thermalRemove := (List.suffix_cons op ops).trans hrest
  have hkeep {op' : Op} (hne : op' ≠ op) (hdone : op' ∉ ops) : op' ∉ s.removal := by
    rw [hremoval]
    exact List.not_mem_cons_of_ne_of_not_mem hne hdone
  -- what neither sets the duty nor drives a pin
  have hother {t : Thermal} (hset : .setHeaterDutyFraction 0 ≠ op)
      (hdrive : ∀ p, .changePin p false ≠ op) (hremoved : t.removal = ops)
      (hduty : t.heaterDutyFraction = s.heaterDutyFraction)
      (harmed : t.armed = true → s.armed = true) (hcallback : t.callback = s.callback) :
      Safe g t := by
    subst hremoved
    refine ⟨hsuffix, ?_, ?_, ?_⟩
    · intro hzeroed ht
      rw [hduty]
      exact h.duty (hkeep hset hzeroed) (harmed ht)
    · intro hdriven
      rw [hcallback]
      exact h.callback (hkeep (hdrive _) hdriven)
    · exact fun p hp hdriven => h.low p hp (hkeep (hdrive p) hdriven)
  cases op with
  | setHeaterDutyFraction duty =>
      obtain rfl := Option.some.inj hop
      have hzero : duty = 0 := by
        have hall : ∀ op ∈ thermalRemove, ∀ d, op = .setHeaterDutyFraction d → d = 0 := by
          simp [thermalRemove, thermalMakeSafe, ioChangePins, thermalSafePinChanges]
        exact hall _ (hrest.subset List.mem_cons_self) _ rfl
      refine ⟨hsuffix, fun _ _ => hzero, ?_, ?_⟩
      · exact fun hdriven => h.callback (hkeep (fun heq => nomatch heq) hdriven)
      · exact fun p hp hdriven => h.low p hp (hkeep (fun heq => nomatch heq) hdriven)
  | changePin pin value =>
      obtain rfl := Option.some.inj hop
      obtain rfl : value = false := by
        have hall : ∀ op ∈ thermalRemove, ∀ p v, op = .changePin p v → v = false := by
          simp [thermalRemove, thermalMakeSafe, ioChangePins, thermalSafePinChanges]
        exact hall _ (hrest.subset List.mem_cons_self) _ _ rfl
      refine ⟨hsuffix, ?_, ?_, ?_⟩
      · exact fun hzeroed => h.duty (hkeep (fun heq => nomatch heq) hzeroed)
      · intro hdriven
        by_cases hself : pin = .waterHeater
        · subst hself
          exact halone (by rw [hremoval, List.head?_cons])
        · exact h.callback (hkeep (fun heq => hself (Op.changePin.inj heq).1.symm) hdriven)
      · intro p hp hdriven
        change Function.update g pin (some false) p = some false
        by_cases hself : p = pin
        · rw [hself, Function.update_self]
        · rw [Function.update_of_ne hself]
          exact h.low p hp (hkeep (fun heq => hself (Op.changePin.inj heq).1) hdriven)
  | cancelTimer =>
      obtain ⟨-, hs⟩ := Option.ite_none_right_eq_some.mp hop
      obtain rfl := Option.some.inj hs
      exact hother (fun heq => nomatch heq) (fun _ heq => nomatch heq) rfl rfl
        (fun harmed => nomatch harmed) rfl
  | _ =>
      obtain rfl := Option.some.inj hop
      exact hother (fun heq => nomatch heq) (fun _ heq => nomatch heq) rfl rfl id rfl

theorem Safe.step {a : Action} {r : List Obs × Thermal} (h : Safe g s) (halone : s.LeftAlone a)
    (hstep : s.step a = some r) : Safe (r.1.foldl drive g) r.2 := by
  cases a with
  | heaterPwmStore value =>
      obtain ⟨-, hr⟩ := Option.ite_none_right_eq_some.mp hstep
      obtain rfl := Option.some.inj hr
      exact h.heaterPwmStore halone
  | waterPumpOnStore buf =>
      obtain ⟨-, hr⟩ := Option.ite_none_right_eq_some.mp hstep
      obtain rfl := Option.some.inj hr
      exact h.gpioStore fun hpump => absurd rfl hpump
  | tecOnStore buf =>
      obtain ⟨-, hr⟩ := Option.ite_none_right_eq_some.mp hstep
      obtain rfl := Option.some.inj hr
      refine h.gpioStore fun _ ch hch => ?_
      cases buf with
      | nil => cases hch
      | cons first buf =>
          obtain rfl := Option.some.inj hch
          exact halone
  | timerFires =>
      simp only [Thermal.step] at hstep
      split at hstep
      · rename_i harmed _
        obtain rfl := Option.some.inj hstep
        exact h.timerFires harmed
      · cases hstep
  | timerReads =>
      simp only [Thermal.step] at hstep
      split at hstep
      · rename_i d hread
        obtain rfl := Option.some.inj hstep
        exact h.timerReads hread
      · cases hstep
  | timerSets =>
      simp only [Thermal.step] at hstep
      split at hstep
      · rename_i d level hread
        obtain rfl := Option.some.inj hstep
        exact h.timerSets hread
      · cases hstep
  | removes =>
      simp only [Thermal.step] at hstep
      split at hstep
      · rename_i op ops hremoval
        obtain ⟨r', hop, rfl⟩ := Option.map_eq_some_iff.mp hstep
        exact Safe.runOp (r := r') h hremoval halone hop
      · cases hstep

/-- Left alone, the removal leaves the heat sources off, whatever is written before it has made
them safe and whatever the callbacks do. -/
theorem heat_sources_off_of_leftAlone {as : List Action} {out : List Obs} {s : Thermal}
    (hexec : System.execute step as probe = some (out, s)) (hremoved : s.removal = [])
    (halone : System.Along step LeftAlone as probe) :
    lastDriven out .waterHeater = some false ∧ lastDriven out .tec = some false := by
  have hsafe : Safe (lastDriven out) s :=
    System.execute_gathers (I := Safe) (fun _ _ _ _ h ha hstep => h.step ha hstep) safe_probe
      halone hexec
  constructor
  · exact hsafe.low _ (by decide) (by simp [hremoved])
  · exact hsafe.low _ (by decide) (by simp [hremoved])

/-- The heater is on and the TEC too when the removal begins; between its steps a callback comes
to its end, another one runs, and both are asked to be off. -/
private def askedOff : List Action :=
  [.heaterPwmStore (.ok 30000), .tecOnStore ['1'], .timerFires, .timerReads, .timerSets, .removes,
    .tecOnStore ['1'], .timerFires, .timerReads, .timerSets, .removes, .heaterPwmStore (.ok 0),
    .timerFires, .removes, .timerReads, .tecOnStore ['0'], .timerSets, .removes, .removes,
    .heaterPwmStore (.ok 65535), .removes, .removes, .removes, .removes, .removes]

theorem heat_sources_off_of_leftAlone_askedOff :
    ∃ out s, System.execute step askedOff probe = some (out, s) ∧ s.removal = [] ∧
      lastDriven out .waterHeater = some false ∧ lastDriven out .tec = some false := by
  have hrun : (System.execute step askedOff probe).map (fun r => r.2.removal) = some [] := by
    decide +kernel
  have halone : System.check step (fun s a => decide (s.LeftAlone a)) askedOff probe = true := by
    decide +kernel
  obtain ⟨⟨out, s⟩, hexec, hremoved⟩ := Option.map_eq_some_iff.mp hrun
  refine ⟨out, s, hexec, hremoved, heat_sources_off_of_leftAlone hexec hremoved ?_⟩
  exact (System.along_of_check halone).mono fun _ _ => of_decide_eq_true

/-- The heater is asked for once it has been made safe, and the timer fires once more. -/
private def heaterAsked : List Action :=
  List.replicate 3 .removes ++
    [.heaterPwmStore (.ok 65535), .timerFires, .timerReads, .timerSets] ++
    List.replicate 7 .removes

theorem heat_sources_off_false :
    ¬∀ (as : List Action) (out : List Obs) (s : Thermal),
      System.execute step as probe = some (out, s) → s.removal = [] →
      lastDriven out .waterHeater = some false ∧ lastDriven out .tec = some false := by
  intro h
  have hrun : (System.execute step heaterAsked probe).map (fun r =>
      (r.2.removal, lastDriven r.1 .waterHeater)) = some ([], some true) := by
    decide +kernel
  obtain ⟨⟨out, s⟩, hexec, hend⟩ := Option.map_eq_some_iff.mp hrun
  obtain ⟨hremoved, hheater⟩ := Prod.mk.inj hend
  have hoff := (h _ out s hexec hremoved).1
  rw [show lastDriven out .waterHeater = some true from hheater] at hoff
  cases hoff

end Thermal

end Glowforge.Cooling
