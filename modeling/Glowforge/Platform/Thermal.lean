import Glowforge.Platform.Io

/-! `thermal.c` from its probe to its removal: the ladder of labels under `thermal_probe`, and
`thermal_remove`, which gives the same things back in another order. -/
namespace Glowforge.Platform
open Foundation Routine

inductive ThermalPin where
  | waterPump
  | waterHeater
  | tec
  | intake1Tach
  | intake2Tach
  | exhaustTach
  deriving DecidableEq, Repr

inductive ThermalPwm where
  | intake
  | exhaust
  deriving DecidableEq, Repr

inductive Tach where
  | intake1
  | intake2
  | exhaust
  deriving DecidableEq, Repr

def ThermalPin.all : List ThermalPin :=
  [.waterPump, .waterHeater, .tec, .intake1Tach, .intake2Tach, .exhaustTach]

def ThermalPwm.all : List ThermalPwm := [.intake, .exhaust]

def Tach.all : List Tach := [.intake1, .intake2, .exhaust]

theorem ThermalPin.mem_all (p : ThermalPin) : p ∈ ThermalPin.all := by
  cases p <;> decide

theorem ThermalPwm.mem_all (p : ThermalPwm) : p ∈ ThermalPwm.all := by
  cases p <;> decide

def tachPinIds : Tach → ThermalPin
  | .intake1 => .intake1Tach
  | .intake2 => .intake2Tach
  | .exhaust => .exhaustTach

/-- The periods of `thermal_pwm_configs`, for 25 kHz. -/
def thermalPwmPeriod : ThermalPwm → BitVec 32
  | .intake | .exhaust => BitVec.ofNat 32 (1000000000 / 25000)

/-- The pins of `thermal_safe_pin_changes`. -/
def thermalSafePins : List ThermalPin := [.waterHeater, .tec]

structure ThermalAnswers where
  enabled : Bool
  kzalloc : Int
  namedGpio : ThermalPin → Int
  requestOne : ThermalPin → Int
  pwm : PwmAnswers ThermalPwm
  gpioToIrq : Int → Int
  requestIrq : Tach → Int
  createGroup : Int
  createLink : Int

structure Thermal where
  gpios : ThermalPin → Int
  pwms : ThermalPwm → PwmChannel
  irqNums : Tach → Int

namespace Thermal

def irq (gpios : ThermalPin → Int) (t : Tach) (irqNum : Int) : Resource :=
  .irq irqNum (gpios (tachPinIds t))

/-- The attributes, with the pins and channels that they write. -/
def group (self : Thermal) : Resource :=
  .group .thermal [self.gpios .waterPump, self.gpios .tec] (pwmdevs self.pwms ThermalPwm.all)

def dmsNotifier (self : Thermal) : Resource :=
  .notifier .thermal (thermalSafePins.map self.gpios)

def heaterPwmTimer (self : Thermal) : Resource :=
  .timer .thermal ([ThermalPin.waterHeater].map self.gpios)

def makeSafe (self : Thermal) : Call Unit := ioChangePins self.gpios thermalSafePins

end Thermal

def thermalTeardownTachs (gpios : ThermalPin → Int) (irqNums : Tach → Int) : Call (Tach → Int) :=
  releaseSlots (Thermal.irq gpios) Tach.all irqNums

/-- The second loop of `thermal_init_tachs`; a number is recorded once the request succeeded. -/
def requestTachs (k : ThermalAnswers) (gpios : ThermalPin → Int) :
    List Tach → (Tach → Int) → Call (Int × (Tach → Int))
  | [], irqNums => pure (0, irqNums)
  | t :: rest, irqNums =>
      if k.gpioToIrq (gpios (tachPinIds t)) < 0 then do
        let irqNums ← thermalTeardownTachs gpios irqNums
        pure (-2, irqNums)
      else do
        let ret ← acquire (Thermal.irq gpios t (k.gpioToIrq (gpios (tachPinIds t)))) (k.requestIrq t)
        if ret < 0 then do
          let irqNums ← thermalTeardownTachs gpios irqNums
          pure (-2, irqNums)
        else
          requestTachs k gpios rest
            (Function.update irqNums t (k.gpioToIrq (gpios (tachPinIds t))))

def thermalInitTachs (k : ThermalAnswers) (gpios : ThermalPin → Int) :
    Call (Int × (Tach → Int)) :=
  requestTachs k gpios Tach.all fun _ => -1

namespace Thermal

/-! The labels of `thermal_probe`, from the bottom up. -/

def failedPwmInit (self : Thermal) (ret : Int) : Call (Int × Thermal) := do
  let gpios ← ioReleaseGpios ThermalPin.all self.gpios
  pure (ret, { self with gpios := gpios })

def failedTachInit (self : Thermal) (ret : Int) : Call (Int × Thermal) := do
  let pwms ← ioReleasePwms ThermalPwm.all self.pwms
  failedPwmInit { self with pwms := pwms } ret

def failedCreateGroup (self : Thermal) (ret : Int) : Call (Int × Thermal) := do
  let irqNums ← thermalTeardownTachs self.gpios self.irqNums
  failedTachInit { self with irqNums := irqNums } ret

def failedCreateLink (self : Thermal) (ret : Int) : Call (Int × Thermal) := do
  release self.group
  self.failedCreateGroup ret

end Thermal

/-- `thermal_probe`, once the driver data are there. -/
def thermalSetUp (k : ThermalAnswers) : Call (Int × Thermal) := do
  let g ← ioInitGpios k.namedGpio k.requestOne ThermalPin.all
  let self : Thermal := ⟨g.2, fun _ => ⟨none, 0, 0⟩, fun _ => 0⟩
  if g.1 ≠ 0 then pure (g.1, self)
  else do
    let p ← ioInitPwms thermalPwmPeriod k.pwm ThermalPwm.all
    let self := { self with pwms := p.2 }
    if p.1 ≠ 0 then self.failedPwmInit p.1
    else do
      let t ← thermalInitTachs k self.gpios
      let self := { self with irqNums := t.2 }
      if t.1 ≠ 0 then self.failedTachInit t.1
      else do
        let ret ← acquire self.group k.createGroup
        if ret < 0 then self.failedCreateGroup ret
        else do
          let ret ← acquire (.link .thermal) k.createLink
          if ret ≠ 0 then self.failedCreateLink ret
          else do
            let _ ← acquire self.dmsNotifier 0
            let _ ← acquire self.heaterPwmTimer 0
            pure (0, self)

def thermalProbe (k : ThermalAnswers) : Call (Probed Thermal) :=
  if k.enabled then do
    let ret ← acquire (.data .thermal) k.kzalloc
    if ret < 0 then pure ⟨-12, none, []⟩
    else do
      let r ← thermalSetUp k
      pure ⟨r.1, some r.2, [.data .thermal]⟩
  else pure ⟨0, none, []⟩

/-- `thermal_remove`; where the driver is disabled, there are no driver data. -/
def thermalRemove : Option Thermal → Call Unit
  | none => pure ()
  | some self => do
      self.makeSafe
      release self.dmsNotifier
      release self.heaterPwmTimer
      release (.link .thermal)
      release self.group
      let _ ← ioReleasePwms ThermalPwm.all self.pwms
      let _ ← thermalTeardownTachs self.gpios self.irqNums
      let _ ← ioReleaseGpios ThermalPin.all self.gpios
      pure ()

namespace Thermal

/-! What is owned, stage by stage. -/

structure HasGpios (s : Thermal) (own : Finset Resource) : Prop where
  distinct : (requested s.gpios ThermalPin.all).Nodup
  granted : ∀ p, 0 ≤ s.gpios p
  own_eq : own = (requested s.gpios ThermalPin.all).toFinset

structure HasPwms (s : Thermal) (pwms gpios : Finset Resource) : Prop where
  below : s.HasGpios gpios
  channels : Channels (pwmdevs s.pwms ThermalPwm.all) pwms
  distinct : (pwmdevs s.pwms ThermalPwm.all).Nodup
  free : Free Resource.needs pwms gpios

structure HasTachs (s : Thermal) (tachs pwms gpios : Finset Resource) : Prop where
  below : s.HasPwms pwms gpios
  distinct : (slots (irq s.gpios) s.irqNums Tach.all).Nodup
  own_eq : tachs = (slots (irq s.gpios) s.irqNums Tach.all).toFinset
  free : Free Resource.needs tachs (pwms ∪ gpios)

variable {self : Thermal} {base own tachs pwms gpios : Finset Resource}

theorem HasGpios.mem (h : self.HasGpios own) (p : ThermalPin) : .gpio (self.gpios p) ∈ own := by
  rw [h.own_eq]
  exact List.mem_toFinset.mpr (mem_slots _ p.mem_all (h.granted p))

theorem HasGpios.kinds (h : self.HasGpios own) : Kinds [.gpio] own := by
  rw [h.own_eq]
  exact kinds_slots (k := .gpio) _ (fun _ _ => rfl) _ _

theorem HasTachs.kinds (h : self.HasTachs tachs pwms gpios) : Kinds [.irq] tachs := by
  rw [h.own_eq]
  exact kinds_slots (k := .irq) _ (fun _ _ => rfl) _ _

theorem HasGpios.released (h : self.HasGpios own) :
    Triple base own (ioReleaseGpios ThermalPin.all self.gpios) fun gpios own' =>
      own' = ∅ ∧ ∀ p ∈ ThermalPin.all, gpios p < 0 := by
  rw [h.own_eq]
  exact triple_ioReleaseGpios (by decide) h.distinct

theorem HasPwms.released (h : self.HasPwms pwms gpios) :
    Triple base pwms (ioReleasePwms ThermalPwm.all self.pwms) fun chs own' =>
      own' = ∅ ∧ ∀ p ∈ ThermalPwm.all, (chs p).pwmdev = none :=
  triple_ioReleasePwms (by decide) h.distinct h.channels

theorem HasTachs.released (h : self.HasTachs tachs pwms gpios) :
    Triple base tachs (thermalTeardownTachs self.gpios self.irqNums) fun irqNums own' =>
      own' = ∅ ∧ ∀ t ∈ Tach.all, irqNums t < 0 := by
  rw [h.own_eq]
  exact triple_releaseSlots (by simp [irq, Resource.needs]) (by decide) h.distinct

theorem triple_failedPwmInit (h : self.HasGpios gpios) (ret : Int) :
    Triple base gpios (self.failedPwmInit ret) fun r own' => r.1 = ret ∧ own' = ∅ := by
  refine .bind h.released ?_
  rintro _ own' ⟨rfl, -⟩
  exact .ret ⟨rfl, rfl⟩

theorem triple_failedTachInit (h : self.HasPwms pwms gpios) (ret : Int) :
    Triple base (pwms ∪ gpios) (self.failedTachInit ret) fun r own' => r.1 = ret ∧ own' = ∅ := by
  refine .bind (h.released.without (fun _ _ h => h.1) h.free) ?_
  rintro chs own' ⟨rfl, -⟩
  have hgpios : HasGpios { self with pwms := chs } own' :=
    ⟨h.below.distinct, h.below.granted, h.below.own_eq⟩
  exact triple_failedPwmInit hgpios ret

theorem triple_failedCreateGroup (h : self.HasTachs tachs pwms gpios) (ret : Int) :
    Triple base (tachs ∪ (pwms ∪ gpios)) (self.failedCreateGroup ret)
      fun r own' => r.1 = ret ∧ own' = ∅ := by
  refine .bind (h.released.without (fun _ _ h => h.1) h.free) ?_
  rintro irqNums own' ⟨rfl, -⟩
  obtain ⟨hgpios, hchannels, hdistinct, hfree⟩ := h.below
  have hgpios' : HasGpios { self with irqNums := irqNums } gpios :=
    ⟨hgpios.distinct, hgpios.granted, hgpios.own_eq⟩
  exact triple_failedTachInit ⟨hgpios', hchannels, hdistinct, hfree⟩ ret

theorem triple_requestTachs (k : ThermalAnswers) {gpios : ThermalPin → Int} (done : List Tach)
    {rest : List Tach} {irqNums : Tach → Int} (hall : done ++ rest = Tach.all)
    (hdistinct : (slots (irq gpios) irqNums done).Nodup) (hrest : ∀ t ∈ rest, irqNums t < 0)
    (hbase : .data .thermal ∈ base ∧ ∀ p, .gpio (gpios p) ∈ base) :
    Triple base (slots (irq gpios) irqNums done).toFinset (requestTachs k gpios rest irqNums)
      fun r own' => (r.1 ≠ 0 ∧ own' = ∅) ∨
        (r.1 = 0 ∧ (slots (irq gpios) r.2 Tach.all).Nodup ∧
          own' = (slots (irq gpios) r.2 Tach.all).toFinset) := by
  have hleaf : ∀ t n t' n', irq gpios t n ∉ (irq gpios t' n').needs := by
    simp [irq, Resource.needs]
  induction rest generalizing done irqNums with
  | nil =>
      rw [List.append_nil] at hall
      subst hall
      exact .ret (.inr ⟨rfl, hdistinct, rfl⟩)
  | cons t rest ih =>
      have hnodup : (done ++ t :: rest).Nodup := hall ▸ by decide
      obtain ⟨hnotdone, hnotrest⟩ := notMem_of_nodup_append_cons hnodup
      -- a tach that is refused takes the earlier ones with it
      have hteardown : Triple base (slots (irq gpios) irqNums done).toFinset
          (thermalTeardownTachs gpios irqNums >>= fun irqNums => pure (-2, irqNums))
          fun r own' => (r.1 ≠ 0 ∧ own' = ∅) ∨
            (r.1 = 0 ∧ (slots (irq gpios) r.2 Tach.all).Nodup ∧
              own' = (slots (irq gpios) r.2 Tach.all).toFinset) := by
        have hsame : slots (irq gpios) irqNums Tach.all = slots (irq gpios) irqNums done := by
          rw [← hall, slots_append, slots_of_neg _ hrest, List.append_nil]
        rw [← hsame] at hdistinct ⊢
        refine .bind (triple_releaseSlots hleaf (by decide) hdistinct) ?_
        rintro _ own' ⟨rfl, -⟩
        exact .ret (.inl ⟨(by decide : (-2 : Int) ≠ 0), rfl⟩)
      rw [requestTachs]
      by_cases hirq : k.gpioToIrq (gpios (tachPinIds t)) < 0
      · rw [if_pos hirq]
        exact hteardown
      rw [if_neg hirq]
      have hneeds : (irq gpios t (k.gpioToIrq (gpios (tachPinIds t)))).needs ⊆ base :=
        Finset.insert_subset hbase.1 (Finset.singleton_subset_iff.mpr (hbase.2 _))
      refine .bind (triple_grant _ hnotdone (not_lt.mp hirq) hdistinct hneeds) ?_
      rintro ret own' (⟨rfl, rfl, hdistinct'⟩ | ⟨hret, rfl⟩)
      · rw [if_neg (by decide)]
        refine ih _ (by rwa [← List.append_cons]) hdistinct' fun t' ht' => ?_
        have hne : t' ≠ t := by
          rintro rfl
          exact hnotrest ht'
        rw [Function.update_of_ne hne]
        exact hrest t' (List.mem_cons_of_mem _ ht')
      · rw [if_pos hret]
        exact hteardown

structure Running (s : Thermal) (tachs pwms gpios own : Finset Resource) : Prop where
  below : s.HasTachs tachs pwms gpios
  own_eq : own = insert s.dmsNotifier (insert s.heaterPwmTimer (insert (.link .thermal)
    (insert s.group (tachs ∪ (pwms ∪ gpios)))))

theorem HasTachs.kinds_all (h : self.HasTachs tachs pwms gpios) :
    Kinds ([.irq] ++ ([.pwm, .pwmEnabled] ++ [.gpio])) (tachs ∪ (pwms ∪ gpios)) :=
  h.kinds.union (h.below.channels.kinds.union h.below.below.kinds)

theorem HasTachs.mem (h : self.HasTachs tachs pwms gpios) (p : ThermalPin) :
    .gpio (self.gpios p) ∈ tachs ∪ (pwms ∪ gpios) :=
  Finset.mem_union_right _ (Finset.mem_union_right _ (h.below.below.mem p))

theorem HasTachs.group_needs (h : self.HasTachs tachs pwms gpios) (hdata : .data .thermal ∈ base) :
    self.group.needs ⊆ base ∪ (tachs ∪ (pwms ∪ gpios)) := by
  refine Finset.insert_subset (Finset.mem_union_left _ hdata) fun r hr => ?_
  refine Finset.mem_union_right _ ?_
  rcases List.mem_append.mp (List.mem_toFinset.mp hr) with hr | hr
  · simp only [List.map_cons, List.map_nil, List.mem_cons, List.not_mem_nil, or_false] at hr
    rcases hr with rfl | rfl
    · exact h.mem _
    · exact h.mem _
  · obtain ⟨d, hd, rfl⟩ := List.mem_map.mp hr
    exact Finset.mem_union_right _ (Finset.mem_union_left _ (h.below.channels.got d hd))

theorem HasTachs.callback_needs (h : self.HasTachs tachs pwms gpios) (hdata : .data .thermal ∈ base)
    (pins : List ThermalPin) :
    insert (.data .thermal) ((pins.map self.gpios).map Resource.gpio).toFinset ⊆
      base ∪ (tachs ∪ (pwms ∪ gpios)) := by
  refine Finset.insert_subset (Finset.mem_union_left _ hdata) fun r hr => ?_
  obtain ⟨g, hg, rfl⟩ := List.mem_map.mp (List.mem_toFinset.mp hr)
  obtain ⟨p, -, rfl⟩ := List.mem_map.mp hg
  exact Finset.mem_union_right _ (h.mem p)

/-- A callback drives pins of the driver's own, so nobody else can have registered it. -/
theorem HasTachs.registers (h : self.HasTachs tachs pwms gpios) (hdata : .data .thermal ∈ base)
    {r : Resource} {p : ThermalPin} {pins : List ThermalPin}
    (hr : r.needs = insert (.data .thermal) (((p :: pins).map self.gpios).map Resource.gpio).toFinset)
    (hsub : tachs ∪ (pwms ∪ gpios) ⊆ own) (hnot : r ∉ own) :
    Triple base own (acquire r 0 : Call Int) fun a own' => a = 0 ∧ own' = insert r own := by
  refine triple_acquire_granted ?_ (hsub (h.mem p)) ?_ hnot
  · rw [hr]
    exact (h.callback_needs hdata (p :: pins)).trans (Finset.union_subset_union_right hsub)
  · rw [hr]
    exact Finset.mem_insert_of_mem (by simp)

end Thermal

theorem triple_thermalSetUp {base : Finset Resource} (k : ThermalAnswers)
    (hdata : .data .thermal ∈ base) (hkobject : .kobject ∈ base) :
    Triple base ∅ (thermalSetUp k) fun r own' =>
      (r.1 ≠ 0 ∧ own' = ∅) ∨
        (r.1 = 0 ∧ ∃ tachs pwms gpios, r.2.Running tachs pwms gpios own') := by
  -- a label returns the error it was reached with
  have hlabel : ∀ {own : Finset Resource} {m : Call (Int × Thermal)} {ret : Int}, ret ≠ 0 →
      Triple base own m (fun r own' => r.1 = ret ∧ own' = ∅) →
      Triple base own m fun r own' => (r.1 ≠ 0 ∧ own' = ∅) ∨
        (r.1 = 0 ∧ ∃ tachs pwms gpios, r.2.Running tachs pwms gpios own') := by
    intro own m ret hret hm
    refine hm.mono fun r own' h => .inl ⟨?_, h.2⟩
    rw [h.1]
    exact hret
  unfold thermalSetUp
  refine .bind (triple_ioInitGpios _ _ (by decide)) ?_
  rintro g gpios (⟨hfail, rfl⟩ | ⟨hok, hgpios, hdistinct, hgranted⟩)
  · dsimp only
    rw [if_pos hfail.ne]
    exact .ret (.inl ⟨hfail.ne, rfl⟩)
  dsimp only
  rw [if_neg (not_not.mpr hok)]
  have hhasGpios : ∀ pwms irqNums, Thermal.HasGpios ⟨g.2, pwms, irqNums⟩ gpios := fun _ _ =>
    ⟨hdistinct, fun p => hgranted p p.mem_all, hgpios⟩
  refine .bind (triple_ioInitPwms _ _ (by decide)).beside ?_
  rintro p own ⟨pwms, hp, hfree, rfl⟩
  rcases hp with ⟨hfail, rfl⟩ | ⟨hok, hchannels, hdistinct⟩
  · rw [if_pos hfail, Finset.empty_union]
    exact hlabel hfail (Thermal.triple_failedPwmInit (hhasGpios _ _) _)
  rw [if_neg (not_not.mpr hok)]
  have hhasPwms : ∀ irqNums, Thermal.HasPwms ⟨g.2, p.2, irqNums⟩ pwms gpios := fun _ =>
    ⟨hhasGpios _ _, hchannels, hdistinct, hfree⟩
  have hbase : .data .thermal ∈ base ∪ (pwms ∪ gpios) ∧
      ∀ p, .gpio (g.2 p) ∈ base ∪ (pwms ∪ gpios) := by
    refine ⟨Finset.mem_union_left _ hdata, fun pin => ?_⟩
    exact Finset.mem_union_right _ (Finset.mem_union_right _ ((hhasGpios p.2 fun _ => 0).mem pin))
  refine .bind (Thermal.triple_requestTachs k [] rfl List.nodup_nil (by simp) hbase).beside ?_
  rintro t own ⟨tachs, ht, hfree, rfl⟩
  rcases ht with ⟨hfail, rfl⟩ | ⟨hok, hdistinct, htachs⟩
  · rw [if_pos hfail, Finset.empty_union]
    exact hlabel hfail (Thermal.triple_failedTachInit (hhasPwms _) _)
  rw [if_neg (not_not.mpr hok)]
  have hhasTachs : Thermal.HasTachs ⟨g.2, p.2, t.2⟩ tachs pwms gpios :=
    ⟨hhasPwms _, hdistinct, htachs, hfree⟩
  generalize Thermal.mk g.2 p.2 t.2 = s at hhasTachs ⊢
  have hkinds := hhasTachs.kinds_all
  refine .bind (triple_acquire _ (hhasTachs.group_needs hdata)) ?_
  rintro ret own (⟨rfl, -, rfl⟩ | ⟨hfail, rfl⟩)
  swap
  · rw [if_pos hfail]
    exact hlabel hfail.ne (Thermal.triple_failedCreateGroup hhasTachs _)
  rw [if_neg (lt_irrefl 0)]
  refine .bind (triple_acquire _ (link_needs _ hkobject)) ?_
  rintro ret own (⟨rfl, -, rfl⟩ | ⟨hfail, rfl⟩)
  swap
  · rw [if_pos hfail.ne]
    refine hlabel hfail.ne (.bind (hkinds.release (k := .group) rfl (by decide) rfl) ?_)
    rintro _ own' rfl
    exact Thermal.triple_failedCreateGroup hhasTachs _
  rw [if_neg (not_not.mpr rfl)]
  have hgroup : Kinds [.group, .irq, .pwm, .pwmEnabled, .gpio] _ := hkinds.insert (r := s.group) rfl
  have hlink : Kinds [.link, .group, .irq, .pwm, .pwmEnabled, .gpio] _ :=
    hgroup.insert (r := .link .thermal) rfl
  have hnotifier : Kinds [.notifier, .link, .group, .irq, .pwm, .pwmEnabled, .gpio] _ :=
    hlink.insert (r := s.dmsNotifier) rfl
  have hsub : tachs ∪ (pwms ∪ gpios) ⊆ insert (.link .thermal) (insert s.group _) :=
    (Finset.subset_insert _ _).trans (Finset.subset_insert _ _)
  refine .bind (hhasTachs.registers hdata rfl hsub
    (hlink.notMem (k := .notifier) rfl (by decide))) ?_
  rintro _ _ ⟨-, rfl⟩
  refine .bind (hhasTachs.registers hdata rfl (hsub.trans (Finset.subset_insert _ _))
    (hnotifier.notMem (k := .timer) rfl (by decide))) ?_
  rintro _ _ ⟨-, rfl⟩
  exact .ret (.inr ⟨rfl, tachs, pwms, gpios, hhasTachs, Finset.insert_comm _ _ _⟩)

theorem triple_thermalRemove {base own tachs pwms gpios : Finset Resource} {self : Thermal}
    (h : self.Running tachs pwms gpios own) :
    Triple base own (thermalRemove (some self)) fun _ own' => own' = ∅ := by
  obtain ⟨hbelow, rfl⟩ := h
  have hkinds := hbelow.kinds_all
  have hgroup : Kinds [.group, .irq, .pwm, .pwmEnabled, .gpio] _ :=
    hkinds.insert (r := self.group) rfl
  have hlink : Kinds [.link, .group, .irq, .pwm, .pwmEnabled, .gpio] _ :=
    hgroup.insert (r := .link .thermal) rfl
  have htimer : Kinds [.timer, .link, .group, .irq, .pwm, .pwmEnabled, .gpio] _ :=
    hlink.insert (r := self.heaterPwmTimer) rfl
  refine .bind (triple_touchAll fun r hr => ?_) ?_
  · obtain ⟨p, -, rfl⟩ := List.mem_map.mp hr
    have hpin := hbelow.mem p
    simp [hpin]
  rintro _ _ rfl
  refine .bind (htimer.release (k := .notifier) rfl (by decide) rfl) ?_
  rintro _ _ rfl
  refine .bind (hlink.release (k := .timer) rfl (by decide) rfl) ?_
  rintro _ _ rfl
  refine .bind (hgroup.release (k := .link) rfl (by decide) rfl) ?_
  rintro _ _ rfl
  refine .bind (hkinds.release (k := .group) rfl (by decide) rfl) ?_
  rintro _ _ rfl
  -- the channels go before the interrupts here, which do not use them
  rw [Finset.union_left_comm]
  have hfree : Free Resource.needs pwms tachs :=
    hbelow.below.channels.kinds.free hbelow.kinds (by decide)
  refine .bind (hbelow.below.released.without (fun _ _ h => h.1) (hfree.union hbelow.below.free)) ?_
  rintro _ _ ⟨rfl, -⟩
  have hgpios := hbelow.free.mono Finset.subset_union_right
  refine .bind (hbelow.released.without (fun _ _ h => h.1) hgpios) ?_
  rintro _ _ ⟨rfl, -⟩
  refine .bind hbelow.below.below.released ?_
  rintro _ _ ⟨rfl, -⟩
  exact .ret rfl

/-- Whatever is refused, nothing stays taken: neither by a probe that fails nor after the
removal, and nothing is given back twice or while something still uses it. -/
theorem thermal_sound (k : ThermalAnswers) :
    Sound {.kobject, .driver .thermal} (thermalProbe k) thermalRemove := by
  refine sound_of_data rfl ?_
  refine Triple.bind (triple_thermalSetUp k (by decide) (by decide)).beside ?_
  rintro r own ⟨held, ⟨hfail, rfl⟩ | ⟨hok, tachs, pwms, gpios, hrunning⟩, hfree, rfl⟩
  · exact Triple.ret (settles_setUp (.inl ⟨hfail, Finset.empty_union _⟩))
  · refine Triple.ret (settles_setUp (.inr ⟨hok, ?_⟩))
    refine ((triple_thermalRemove hrunning).frame hfree).mono ?_
    rintro _ _ ⟨_, rfl, -, rfl⟩
    exact Finset.empty_union _

inductive ThermalCallback where
  | dmsHandler
  | heaterPwmTimerCb
  | pwmStore (pwm : ThermalPwm)
  | waterPumpOnStore
  | tecOnStore
  | tachIrqHandler (tach : Tach)

namespace Thermal

def registered (self : Thermal) : ThermalCallback → Resource
  | .dmsHandler => self.dmsNotifier
  | .heaterPwmTimerCb => self.heaterPwmTimer
  | .pwmStore _ | .waterPumpOnStore | .tecOnStore => self.group
  | .tachIrqHandler t => irq self.gpios t (self.irqNums t)

def uses (self : Thermal) : ThermalCallback → List Resource
  | .dmsHandler => thermalSafePins.map fun p => .gpio (self.gpios p)
  | .heaterPwmTimerCb => [.gpio (self.gpios .waterHeater)]
  | .pwmStore pwm => (self.pwms pwm).pwmdev.toList.map .pwm
  | .waterPumpOnStore => [.gpio (self.gpios .waterPump)]
  | .tecOnStore => [.gpio (self.gpios .tec)]
  | .tachIrqHandler _ => []

def callback (self : Thermal) (cb : ThermalCallback) : Call Unit :=
  touchAll (.data .thermal :: self.uses cb)

theorem callback_run (self : Thermal) (cb : ThermalCallback) {c : Custody Resource.needs}
    (h : self.registered cb ∈ c.held) : (self.callback cb).run c = some ((), c) := by
  refine touchAll_run ?_ h
  intro r hr
  rcases List.mem_cons.mp hr with rfl | hr
  · cases cb <;> exact Finset.mem_insert_self _ _
  cases cb with
  | dmsHandler =>
      obtain ⟨p, hp, rfl⟩ := List.mem_map.mp hr
      refine Finset.mem_insert_of_mem (List.mem_toFinset.mpr ?_)
      exact List.mem_map_of_mem (List.mem_map_of_mem hp)
  | heaterPwmTimerCb =>
      rw [List.mem_singleton.mp hr]
      simp [registered, heaterPwmTimer, Resource.needs]
  | pwmStore pwm =>
      obtain ⟨d, hd, rfl⟩ := List.mem_map.mp hr
      have hmem : d ∈ pwmdevs self.pwms ThermalPwm.all :=
        List.mem_filterMap.mpr ⟨pwm, pwm.mem_all, Option.mem_toList.mp hd⟩
      refine Finset.mem_insert_of_mem (List.mem_toFinset.mpr ?_)
      exact List.mem_append_right _ (List.mem_map_of_mem hmem)
  | waterPumpOnStore =>
      rw [List.mem_singleton.mp hr]
      simp [registered, group, Resource.needs]
  | tecOnStore =>
      rw [List.mem_singleton.mp hr]
      simp [registered, group, Resource.needs]
  | tachIrqHandler t => cases hr

end Thermal

end Glowforge.Platform
