import Glowforge.Cnc.Driver

/-! The fault interrupts over the life of the driver: `cnc_probe` with its ladder of labels,
and `cnc_remove`. Edges arrive between any two steps, and what else happens to the driver
between them is left open. An interrupt stays requested until it is freed, or until the
probe or the removal has returned. -/
namespace Glowforge.Cnc
open Foundation Sdma

/-- What `cnc_probe` does that can fail, and the reading of the initial faults. -/
inductive ProbeStep where
  | allocDriverData
  | allocMailbox
  | bufferInit
  | initGpios
  | initPwms
  | findTimer
  | getEpit
  | initEpit
  | readEpitRate
  | readSdmaParams
  | checkChannel
  | getSdmaEngine
  | getChannel
  | loadSdmaScript
  | getRegulator
  | lookUpIrq (f : FaultCondition)
  | seedFaults
  | requestIrq (f : FaultCondition)
  | createGroup
  | getStateNode
  | createLink
  | registerInterlock
  | registerPulsedev
  deriving DecidableEq, Repr

def cncProbe : List ProbeStep :=
  [.allocDriverData, .allocMailbox, .bufferInit, .initGpios, .initPwms, .findTimer, .getEpit,
    .initEpit, .readEpitRate, .readSdmaParams, .checkChannel, .getSdmaEngine, .getChannel,
    .loadSdmaScript, .getRegulator, .lookUpIrq .x, .lookUpIrq .y1, .lookUpIrq .y2, .seedFaults,
    .requestIrq .x, .requestIrq .y1, .requestIrq .y2, .createGroup, .getStateNode, .createLink,
    .registerInterlock, .registerPulsedev]

inductive ProbeLabel where
  | failedPulsedevRegister
  | failedInterlockRegister
  | failedCreateLink
  | failedGetDirent
  | failedCreateGroup
  | failedRegisterFaultIrqs
  | failedRegulatorGet
  | failedLoadSdmaScript
  | failedSdmaInit
  | failedEpitInit
  | failedPwmInit
  | failedIoInit
  | failedBufferInit
  | failedMailboxAlloc
  deriving DecidableEq, Repr

/-- Where a step goes when it fails; the first one returns at once. -/
def ProbeStep.label : ProbeStep → Option ProbeLabel
  | .allocDriverData => none
  | .allocMailbox => some .failedMailboxAlloc
  | .bufferInit => some .failedBufferInit
  | .initGpios => some .failedIoInit
  | .initPwms => some .failedPwmInit
  | .findTimer | .getEpit | .initEpit | .readEpitRate => some .failedEpitInit
  | .readSdmaParams | .checkChannel | .getSdmaEngine | .getChannel => some .failedSdmaInit
  | .loadSdmaScript => some .failedLoadSdmaScript
  | .getRegulator => some .failedRegulatorGet
  | .lookUpIrq _ | .seedFaults | .requestIrq _ => some .failedRegisterFaultIrqs
  | .createGroup => some .failedCreateGroup
  | .getStateNode => some .failedGetDirent
  | .createLink => some .failedCreateLink
  | .registerInterlock => some .failedInterlockRegister
  | .registerPulsedev => some .failedPulsedevRegister

inductive TeardownOp where
  | deregisterPulsedev
  | unregisterInterlock
  | removeLink
  | putStateNode
  | removeGroup
  | freeFaultIrq (f : FaultCondition)
  | killTasklet
  | clearCallback
  | putChannel
  | stopEpit
  | cancelTimers
  | unregisterPanic
  | releasePwms
  | stepperPowerOff
  | releaseGpios
  | bufferDestroy
  | releaseReservedMem
  | freeMailbox
  deriving DecidableEq, Repr

def TeardownOp.releases : TeardownOp → Bool
  | .killTasklet | .putChannel | .releaseGpios => true
  | _ => false

def cncFreeFaultIrqs : List TeardownOp := FaultCondition.all.map .freeFaultIrq

def ladder : List (ProbeLabel × List TeardownOp) :=
  [(.failedPulsedevRegister, [.unregisterInterlock]),
    (.failedInterlockRegister, [.removeLink]),
    (.failedCreateLink, [.putStateNode]),
    (.failedGetDirent, [.removeGroup]),
    (.failedCreateGroup, cncFreeFaultIrqs),
    (.failedRegisterFaultIrqs, [.killTasklet]),
    (.failedRegulatorGet, []),
    (.failedLoadSdmaScript, []),
    (.failedSdmaInit, [.clearCallback, .putChannel, .stopEpit]),
    (.failedEpitInit, [.releasePwms]),
    (.failedPwmInit, [.releaseGpios]),
    (.failedIoInit, [.bufferDestroy]),
    (.failedBufferInit, [.releaseReservedMem, .freeMailbox]),
    (.failedMailboxAlloc, [])]

def unwind : Option ProbeLabel → List TeardownOp
  | none => []
  | some l => (ladder.dropWhile fun rung => rung.1 ≠ l).flatMap Prod.snd

def cncRemove : List TeardownOp :=
  [.deregisterPulsedev, .unregisterInterlock, .removeLink, .removeGroup, .putStateNode, .stopEpit,
    .clearCallback, .cancelTimers, .unregisterPanic, .releasePwms, .stepperPowerOff, .releaseGpios,
    .bufferDestroy, .releaseReservedMem, .freeMailbox, .killTasklet, .putChannel]

inductive Teardown where
  | failed (p : ProbeStep)
  | removed
  deriving DecidableEq, Repr

/-- It is neither the removal nor the unwinding from the second or the third request. -/
def Teardown.frees : Teardown → Prop
  | .failed p => p ≠ .requestIrq .y1 ∧ p ≠ .requestIrq .y2
  | .removed => False

inductive Stage where
  | probing (rest : List ProbeStep)
  | bound
  | tearing (why : Teardown) (rest : List TeardownOp)
  deriving DecidableEq, Repr

/-- What a fault handler relies on and the driver has given up. -/
structure Released where
  gpios : Bool
  tasklet : Bool
  channel : Bool
  deriving DecidableEq, Repr

def Released.any (r : Released) : Bool := r.gpios || r.tasklet || r.channel

/-- The driver with its fault interrupts: which are requested (`live`), the numbers that the
driver has recorded, and whether its tasklet is scheduled. -/
structure Lifetime where
  driver : Driver
  initialFaultState : Word
  live : FaultCondition → Bool
  faultIrqs : FaultCondition → Int
  scheduled : Bool
  sdmac : Bool
  released : Released
  stage : Stage

namespace Lifetime

inductive Action where
  | probes (ok : Bool)
  | removes
  | tears
  | edge (f : FaultCondition)
  | tasklet
  | changes (d : Driver)

/-- A handler or the tasklet runs, with what was released by then. -/
inductive Obs where
  | handled (f : FaultCondition) (released : Released) (notices : List Notice)
  | ran (released : Released) (notices : List Notice)
  deriving DecidableEq, Repr

def start (d : Driver) : Lifetime where
  driver := d
  initialFaultState := 0
  live := fun _ => false
  faultIrqs := fun _ => 0
  scheduled := false
  sdmac := false
  released := ⟨false, false, false⟩
  stage := .probing cncProbe

section

variable (gpioToIrq : FaultCondition → Int)

def pass (s : Lifetime) : ProbeStep → Lifetime
  | .getChannel => { s with sdmac := true }
  | .lookUpIrq f =>
      { s with
        initialFaultState :=
          if gpioGetValue s.driver.pins f.gpio then s.initialFaultState
          else raise s.initialFaultState f.bit }
  | .seedFaults =>
      let triggered := (s.initialFaultState &&& ~~~s.driver.ignoredFaults).truncate 8
      { s with driver := { s.driver with status := { s.driver.status with
          triggeredFaults := triggered
          state := if triggered ≠ 0 then .fault else s.driver.status.state } } }
  | .requestIrq f =>
      { s with
        live := Function.update s.live f true
        faultIrqs := Function.update s.faultIrqs f (gpioToIrq f) }
  | _ => s

/-- The outcomes a step can have: the look-up of a number fails when it is negative. -/
def Allows (ok : Bool) : ProbeStep → Prop
  | .lookUpIrq f => ok = decide (0 ≤ gpioToIrq f)
  | .seedFaults => ok = true
  | _ => True

instance (ok : Bool) (p : ProbeStep) : Decidable (Allows gpioToIrq ok p) := by
  cases p <;> unfold Allows <;> infer_instance

/-- A step of the teardown. The tasklet is killed once it is not scheduled. -/
def tear (s : Lifetime) : TeardownOp → Option Lifetime
  | .freeFaultIrq f =>
      if s.faultIrqs f > 0 then
        some { s with
          live := Function.update s.live f false
          faultIrqs := Function.update s.faultIrqs f 0 }
      else some s
  | .killTasklet =>
      if s.scheduled then none else some { s with released := { s.released with tasklet := true } }
  | .putChannel =>
      if s.sdmac then some { s with released := { s.released with channel := true } } else some s
  | .releaseGpios => some { s with released := { s.released with gpios := true } }
  | _ => some s

def step (s : Lifetime) : Action → Option (List Obs × Lifetime)
  | .probes ok =>
      match s.stage with
      | .probing (p :: rest) =>
          if Allows gpioToIrq ok p then
            if ok then
              some ([], { s.pass gpioToIrq p with stage := if rest = [] then .bound else .probing rest })
            else some ([], { s with stage := .tearing (.failed p) (unwind p.label) })
          else none
      | _ => none
  | .removes =>
      match s.stage with
      | .bound => some ([], { s with stage := .tearing .removed cncRemove })
      | _ => none
  | .tears =>
      match s.stage with
      | .tearing why (op :: rest) =>
          (s.tear op).map fun s' => ([], { s' with stage := .tearing why rest })
      | _ => none
  | .edge f =>
      if s.live f then
        let r := s.driver.cncFaultIrqHandler f
        some ([.handled f s.released r.1],
          { s with driver := r.2, scheduled := s.scheduled || !r.1.isEmpty })
      else none
  | .tasklet =>
      if s.scheduled then
        let r := s.driver.faultTaskletFn
        some ([.ran s.released r.1], { s with driver := r.2, scheduled := false })
      else none
  | .changes d => some ([], { s with driver := d })

end

/-- Once anything is released, no fault handler is requested. -/
def Sound (s : Lifetime) : Prop := s.released.any = true → ∀ f, s.live f = false

def Obs.onHeld : Obs → Prop
  | .handled _ released _ => released.any = false
  | .ran released _ => released.any = false

/-! What is left of a teardown. -/

def covers (f : FaultCondition) : List TeardownOp → Bool
  | [] => false
  | .freeFaultIrq g :: ops => decide (f = g) || covers f ops
  | op :: ops => !op.releases && covers f ops

def settles : List TeardownOp → Bool
  | [] => false
  | .killTasklet :: _ => true
  | op :: ops => !op.releases && settles ops

def laddersCover : List ProbeStep → Bool
  | [] => true
  | p :: rest =>
      decide (p = .requestIrq .y1 ∨ p = .requestIrq .y2) ||
        FaultCondition.all.all fun f =>
          decide (.requestIrq f ∈ p :: rest) ||
            covers f (unwind p.label) && settles (unwind p.label)

theorem covers_unwind {p : ProbeStep} {rest : List ProbeStep} {f : FaultCondition}
    (horder : p :: rest <:+ cncProbe) (hfrees : (Teardown.failed p).frees)
    (hrequested : .requestIrq f ∉ p :: rest) :
    covers f (unwind p.label) = true ∧ settles (unwind p.label) = true := by
  have hall : ∀ l ∈ cncProbe.tails, laddersCover l = true := by decide
  have hcover := hall _ ((List.mem_tails _ _).mpr horder)
  simp only [laddersCover, Bool.or_eq_true, decide_eq_true_eq, List.all_eq_true,
    Bool.and_eq_true] at hcover
  have hf : f ∈ FaultCondition.all := by
    cases f <;> decide
  exact ((hcover.resolve_left (not_or.mpr hfrees)) f hf).resolve_left hrequested

structure Up (gpioToIrq : FaultCondition → Int) (rest : List ProbeStep) (s : Lifetime) : Prop where
  order : rest <:+ cncProbe
  held : s.released.any = false
  live : ∀ f, s.live f = true ↔ .requestIrq f ∉ rest
  looked : ∀ f, .lookUpIrq f ∉ rest → 0 ≤ gpioToIrq f
  recorded : ∀ f, s.live f = true → 0 < s.faultIrqs f
  scheduled : s.scheduled = true → ∃ f, s.live f = true

/-- A teardown that frees what may still interrupt before it releases anything. -/
structure Covered (rest : List TeardownOp) (s : Lifetime) : Prop where
  covered : ∀ f, s.live f = true → covers f rest = true ∧ 0 < s.faultIrqs f
  settled : (s.scheduled = true ∨ ∃ f, s.live f = true) →
    settles rest = true ∧ s.released.any = false

/-- A teardown that releases the pins and frees nothing. -/
structure Leaky (rest : List TeardownOp) (s : Lifetime) : Prop where
  live : s.live .x = true
  kept : ∀ f, .freeFaultIrq f ∉ rest
  due : .releaseGpios ∈ rest ∨ s.released.gpios = true

def Inv (gpioToIrq : FaultCondition → Int) (s : Lifetime) : Prop :=
  match s.stage with
  | .probing rest => rest ≠ [] ∧ Up gpioToIrq rest s
  | .bound => Up gpioToIrq [] s
  | .tearing why rest => (why.frees → Covered rest s) ∧ (¬why.frees → Leaky rest s)

theorem inv_start (d : Driver) (gpioToIrq : FaultCondition → Int) : Inv gpioToIrq (start d) := by
  refine ⟨by decide, List.suffix_refl _, rfl, ?_, ?_, ?_, ?_⟩
  · intro f
    have hdue : .requestIrq f ∈ cncProbe := by
      cases f <;> decide
    exact iff_of_false Bool.false_ne_true (not_not_intro hdue)
  · intro f hf
    cases f <;> exact absurd (by decide) hf
  · exact fun _ hf => nomatch hf
  · exact fun hs => nomatch hs

variable {gpioToIrq : FaultCondition → Int} {s : Lifetime} {rest : List ProbeStep} {p : ProbeStep}

theorem pass_frame (gpioToIrq : FaultCondition → Int) (s : Lifetime) (p : ProbeStep) :
    (s.pass gpioToIrq p).released = s.released ∧
      (s.pass gpioToIrq p).scheduled = s.scheduled := by
  cases p <;> exact ⟨rfl, rfl⟩

theorem pass_irqs (gpioToIrq : FaultCondition → Int) (s : Lifetime) (hp : ∀ f, p ≠ .requestIrq f) :
    (s.pass gpioToIrq p).live = s.live ∧ (s.pass gpioToIrq p).faultIrqs = s.faultIrqs := by
  cases p with
  | requestIrq f => exact absurd rfl (hp f)
  | _ => exact ⟨rfl, rfl⟩

theorem looked_of_request {f g : FaultCondition} (horder : .requestIrq f :: rest <:+ cncProbe) :
    .lookUpIrq g ∉ rest := by
  have hall : ∀ l ∈ cncProbe.tails, ∀ f ∈ FaultCondition.all, ∀ g ∈ FaultCondition.all,
      l.head? = some (.requestIrq f) → .lookUpIrq g ∉ l := by
    decide
  have hmem : ∀ f, f ∈ FaultCondition.all := by
    intro f
    cases f <;> decide
  have hnone := hall _ ((List.mem_tails _ _).mpr horder) f (hmem f) g (hmem g) rfl
  exact fun hg => hnone (List.mem_cons_of_mem _ hg)

theorem Up.looked_pass (h : Up gpioToIrq (p :: rest) s) (hallows : Allows gpioToIrq true p) {f : FaultCondition}
    (hf : .lookUpIrq f ∉ rest) : 0 ≤ gpioToIrq f := by
  by_cases hp : p = .lookUpIrq f
  · subst hp
    exact of_decide_eq_true hallows.symm
  · exact h.looked f (List.not_mem_cons_of_ne_of_not_mem (Ne.symm hp) hf)

theorem Up.pass (h : Up gpioToIrq (p :: rest) s) (hirq : ∀ f, gpioToIrq f ≠ 0)
    (hallows : Allows gpioToIrq true p) : Up gpioToIrq rest (s.pass gpioToIrq p) := by
  obtain ⟨hreleased, hscheduled⟩ := pass_frame gpioToIrq s p
  have hnodup : (p :: rest).Nodup := h.order.sublist.nodup (by decide)
  have hlooked : ∀ f, .lookUpIrq f ∉ rest → 0 ≤ gpioToIrq f := fun f hf => h.looked_pass hallows hf
  by_cases hp : ∀ f, p ≠ .requestIrq f
  · obtain ⟨hlive, hrecorded⟩ := pass_irqs gpioToIrq s hp
    refine ⟨(List.suffix_cons p rest).trans h.order, ?_, ?_, ?_, ?_, ?_⟩
    · rw [hreleased]
      exact h.held
    · intro f
      rw [hlive, h.live f, List.mem_cons, or_iff_right (Ne.symm (hp f))]
    · exact hlooked
    · rw [hlive, hrecorded]
      exact h.recorded
    · rw [hlive, hscheduled]
      exact h.scheduled
  · obtain ⟨f, rfl⟩ := not_forall_not.mp hp
    have hlive : (s.pass gpioToIrq (.requestIrq f)).live = Function.update s.live f true := rfl
    have hrecorded : (s.pass gpioToIrq (.requestIrq f)).faultIrqs =
        Function.update s.faultIrqs f (gpioToIrq f) := rfl
    refine ⟨(List.suffix_cons _ rest).trans h.order, h.held, ?_, hlooked, ?_, ?_⟩
    · intro g
      rw [hlive]
      by_cases hg : g = f
      · subst hg
        exact iff_of_true (Function.update_self _ _ _) (List.nodup_cons.mp hnodup).1
      · rw [Function.update_of_ne hg, h.live g, List.mem_cons, or_iff_right]
        intro heq
        injection heq with heq
        exact hg heq
    · intro g hg
      rw [hlive] at hg
      rw [hrecorded]
      by_cases hgf : g = f
      · subst hgf
        rw [Function.update_self]
        have hnonneg := hlooked g (looked_of_request h.order)
        exact lt_of_le_of_ne hnonneg (Ne.symm (hirq g))
      · rw [Function.update_of_ne hgf] at hg ⊢
        exact h.recorded g hg
    · intro _
      exact ⟨f, Function.update_self _ _ _⟩

theorem Up.fail (h : Up gpioToIrq (p :: rest) s) (hfrees : (Teardown.failed p).frees) :
    Covered (unwind p.label) s where
  covered := by
    intro f hf
    exact ⟨(covers_unwind h.order hfrees ((h.live f).mp hf)).1, h.recorded f hf⟩
  settled := by
    intro hdue
    have hlive : ∃ f, s.live f = true := hdue.elim h.scheduled id
    obtain ⟨f, hf⟩ := hlive
    exact ⟨(covers_unwind h.order hfrees ((h.live f).mp hf)).2, h.held⟩

theorem Up.leak (h : Up gpioToIrq (p :: rest) s) (hleaks : ¬(Teardown.failed p).frees) :
    Leaky (unwind p.label) s := by
  have hp : p = .requestIrq .y1 ∨ p = .requestIrq .y2 := by
    by_contra hother
    exact hleaks (not_or.mp hother)
  have hall : ∀ l ∈ cncProbe.tails,
      l.head? = some (.requestIrq .y1) ∨ l.head? = some (.requestIrq .y2) →
        .requestIrq .x ∉ l := by
    decide
  have hrequested : .requestIrq .x ∉ p :: rest := by
    apply hall _ ((List.mem_tails _ _).mpr h.order)
    exact hp.imp (congrArg some) (congrArg some)
  have hlabel : p.label = some .failedRegisterFaultIrqs := by
    rcases hp with rfl | rfl <;> rfl
  rw [hlabel]
  refine ⟨(h.live .x).mpr hrequested, ?_, .inl (by decide)⟩
  intro f
  cases f <;> decide

theorem Up.remove (h : Up gpioToIrq [] s) : Leaky cncRemove s where
  live := (h.live .x).mpr List.not_mem_nil
  kept := by
    intro f
    cases f <;> decide
  due := .inl (by decide)

variable {op : TeardownOp} {ops : List TeardownOp} {s' : Lifetime}

theorem due_of_releases (ops : List TeardownOp) (hop : op.releases = true) :
    (∀ f, covers f (op :: ops) = false) ∧ (settles (op :: ops) = true → op = .killTasklet) := by
  cases op with
  | killTasklet => exact ⟨fun _ => rfl, fun _ => rfl⟩
  | putChannel => exact ⟨fun _ => rfl, fun h => nomatch h⟩
  | releaseGpios => exact ⟨fun _ => rfl, fun h => nomatch h⟩
  | _ => cases hop

theorem due_of_other (ops : List TeardownOp) (hop : op.releases = false) (hfree : ∀ f, op ≠ .freeFaultIrq f) :
    (∀ f, covers f (op :: ops) = covers f ops) ∧ settles (op :: ops) = settles ops := by
  cases op with
  | freeFaultIrq f => exact absurd rfl (hfree f)
  | killTasklet | putChannel | releaseGpios => cases hop
  | _ => exact ⟨fun _ => rfl, rfl⟩

theorem tear_releases (hop : op.releases = true) (htear : s.tear op = some s') :
    (∃ r, s' = { s with released := r }) ∧ (op = .killTasklet → s.scheduled = false) := by
  cases op with
  | killTasklet =>
      obtain ⟨hscheduled, hs⟩ := Option.ite_none_left_eq_some.mp htear
      exact ⟨⟨_, (Option.some.inj hs).symm⟩, fun _ => Bool.eq_false_of_not_eq_true hscheduled⟩
  | putChannel =>
      refine ⟨?_, fun h => nomatch h⟩
      simp only [tear] at htear
      split at htear
      · exact ⟨_, (Option.some.inj htear).symm⟩
      · exact ⟨s.released, (Option.some.inj htear).symm⟩
  | releaseGpios => exact ⟨⟨_, (Option.some.inj htear).symm⟩, fun h => nomatch h⟩
  | _ => cases hop

theorem tear_other (hop : op.releases = false) (hfree : ∀ f, op ≠ .freeFaultIrq f)
    (htear : s.tear op = some s') : s' = s := by
  cases op with
  | freeFaultIrq f => exact absurd rfl (hfree f)
  | killTasklet | putChannel | releaseGpios => cases hop
  | _ => exact (Option.some.inj htear).symm

theorem Covered.free {f : FaultCondition} (h : Covered (.freeFaultIrq f :: ops) s)
    (htear : s.tear (.freeFaultIrq f) = some s') : Covered ops s' := by
  have hdue : ∀ g, g ≠ f → s.live g = true → covers g ops = true := by
    intro g hg hlive
    have hcovers := (h.covered g hlive).1
    simpa [covers, hg] using hcovers
  have hsettles : settles (.freeFaultIrq f :: ops) = settles ops := rfl
  simp only [tear] at htear
  split at htear
  · obtain rfl := Option.some.inj htear
    constructor
    · intro g hlive
      by_cases hg : g = f
      · rw [hg] at hlive
        simp at hlive
      · simp only [Function.update_of_ne hg] at hlive ⊢
        exact ⟨hdue g hg hlive, (h.covered g hlive).2⟩
    · rintro (hscheduled | ⟨g, hlive⟩)
      · exact h.settled (.inl hscheduled)
      · by_cases hg : g = f
        · rw [hg] at hlive
          simp at hlive
        · simp only [Function.update_of_ne hg] at hlive
          exact h.settled (.inr ⟨g, hlive⟩)
  · rename_i hnone
    obtain rfl := Option.some.inj htear
    constructor
    · intro g hlive
      obtain ⟨-, hrecorded⟩ := h.covered g hlive
      have hg : g ≠ f := by
        rintro rfl
        exact hnone hrecorded
      exact ⟨hdue g hg hlive, hrecorded⟩
    · exact h.settled

theorem Covered.tear (h : Covered (op :: ops) s) (htear : s.tear op = some s') :
    Covered ops s' := by
  cases hop : op.releases with
  | true =>
      obtain ⟨hcovers, hkills⟩ := due_of_releases ops hop
      obtain ⟨⟨r, rfl⟩, hidle⟩ := tear_releases hop htear
      have hdead : ∀ f, s.live f ≠ true := by
        intro f hlive
        have hcovered := (h.covered f hlive).1
        rw [hcovers f] at hcovered
        cases hcovered
      constructor
      · exact fun f hlive => absurd hlive (hdead f)
      · rintro (hscheduled | ⟨f, hlive⟩)
        · have hkill := hkills (h.settled (.inl hscheduled)).1
          exact absurd hscheduled (by simp [hidle hkill])
        · exact absurd hlive (hdead f)
  | false =>
      by_cases hfree : ∀ f, op ≠ .freeFaultIrq f
      · obtain ⟨hcovers, hsettles⟩ := due_of_other ops hop hfree
        obtain rfl := tear_other hop hfree htear
        constructor
        · intro f hlive
          rw [← hcovers f]
          exact h.covered f hlive
        · rw [← hsettles]
          exact h.settled
      · obtain ⟨f, rfl⟩ := not_forall_not.mp hfree
        exact h.free htear

theorem Leaky.tear (h : Leaky (op :: ops) s) (htear : s.tear op = some s') : Leaky ops s' := by
  have hkept : ∀ f, .freeFaultIrq f ∉ ops := fun f hf => h.kept f (List.mem_cons_of_mem _ hf)
  have hfree : ∀ f, op ≠ .freeFaultIrq f := by
    rintro f rfl
    exact h.kept f List.mem_cons_self
  by_cases hgpios : op = .releaseGpios
  · subst hgpios
    obtain rfl := Option.some.inj htear
    exact ⟨h.live, hkept, .inr rfl⟩
  · have hdue : .releaseGpios ∈ ops ∨ s.released.gpios = true :=
      h.due.imp_left fun hmem => (List.mem_cons.mp hmem).resolve_left (Ne.symm hgpios)
    have hframe : s'.live = s.live ∧ s'.released.gpios = s.released.gpios := by
      cases op with
      | freeFaultIrq f => exact absurd rfl (hfree f)
      | releaseGpios => exact absurd rfl hgpios
      | killTasklet =>
          obtain ⟨-, hs⟩ := Option.ite_none_left_eq_some.mp htear
          obtain rfl := Option.some.inj hs
          exact ⟨rfl, rfl⟩
      | putChannel =>
          simp only [Lifetime.tear] at htear
          split at htear
          · obtain rfl := Option.some.inj htear
            exact ⟨rfl, rfl⟩
          · obtain rfl := Option.some.inj htear
            exact ⟨rfl, rfl⟩
      | _ =>
          obtain rfl := Option.some.inj htear
          exact ⟨rfl, rfl⟩
    refine ⟨?_, hkept, ?_⟩
    · rw [hframe.1]
      exact h.live
    · rw [hframe.2]
      exact hdue

theorem Up.setStage (h : Up gpioToIrq rest s) (t : Stage) : Up gpioToIrq rest { s with stage := t } :=
  ⟨h.order, h.held, h.live, h.looked, h.recorded, h.scheduled⟩

theorem Covered.setStage (h : Covered ops s) (t : Stage) : Covered ops { s with stage := t } :=
  ⟨h.covered, h.settled⟩

theorem Leaky.setStage (h : Leaky ops s) (t : Stage) : Leaky ops { s with stage := t } :=
  ⟨h.live, h.kept, h.due⟩

theorem Inv.around (h : Inv gpioToIrq s) (d : Driver) {scheduled : Bool}
    (hscheduled : scheduled = true → s.scheduled = true ∨ ∃ f, s.live f = true) :
    Inv gpioToIrq { s with driver := d, scheduled := scheduled } := by
  have hup : ∀ rest, Up gpioToIrq rest s → Up gpioToIrq rest { s with driver := d, scheduled := scheduled } := by
    intro rest hup
    exact ⟨hup.order, hup.held, hup.live, hup.looked, hup.recorded,
      fun hs => (hscheduled hs).elim hup.scheduled id⟩
  unfold Inv at h ⊢
  split at h
  · rename_i rest hstage
    simp only [hstage]
    exact ⟨h.1, (hup rest h.2).setStage _⟩
  · rename_i hstage
    simp only [hstage]
    exact (hup [] h).setStage _
  · rename_i why rest hstage
    simp only [hstage]
    constructor
    · intro hfrees
      have hcovered := h.1 hfrees
      refine ⟨hcovered.covered, ?_⟩
      rintro (hs | hlive)
      · exact hcovered.settled (hscheduled hs)
      · exact hcovered.settled (.inr hlive)
    · intro hleaks
      have hleaky := h.2 hleaks
      exact ⟨hleaky.live, hleaky.kept, hleaky.due⟩

theorem Inv.step {a : Action} {r : List Obs × Lifetime} (h : Inv gpioToIrq s)
    (hirq : ∀ f, gpioToIrq f ≠ 0) (hstep : step gpioToIrq s a = some r) : Inv gpioToIrq r.2 := by
  cases a with
  | probes ok =>
      simp only [Lifetime.step] at hstep
      split at hstep
      · rename_i p rest hstage
        have hup : Up gpioToIrq (p :: rest) s := by
          simp only [Inv, hstage] at h
          exact h.2
        obtain ⟨hallows, hr⟩ := Option.ite_none_right_eq_some.mp hstep
        cases ok with
        | true =>
            obtain rfl := Option.some.inj hr
            have hpass := hup.pass hirq hallows
            by_cases hlast : rest = []
            · subst hlast
              exact hpass.setStage .bound
            · simp only [if_neg hlast]
              exact ⟨hlast, hpass.setStage _⟩
        | false =>
            obtain rfl := Option.some.inj hr
            exact ⟨fun hfrees => (hup.fail hfrees).setStage _, fun hleaks => (hup.leak hleaks).setStage _⟩
      · cases hstep
  | removes =>
      simp only [Lifetime.step] at hstep
      split at hstep
      · rename_i hstage
        obtain rfl := Option.some.inj hstep
        have hup : Up gpioToIrq [] s := by
          simpa only [Inv, hstage] using h
        exact ⟨fun hfrees => hfrees.elim, fun _ => hup.remove.setStage _⟩
      · cases hstep
  | tears =>
      simp only [Lifetime.step] at hstep
      split at hstep
      · rename_i why op ops hstage
        obtain ⟨s', htear, hr⟩ := Option.map_eq_some_iff.mp hstep
        obtain rfl := hr
        simp only [Inv, hstage] at h
        exact ⟨fun hfrees => ((h.1 hfrees).tear htear).setStage _,
          fun hleaks => ((h.2 hleaks).tear htear).setStage _⟩
      · cases hstep
  | edge f =>
      obtain ⟨hlive, hr⟩ := Option.ite_none_right_eq_some.mp hstep
      obtain rfl := Option.some.inj hr
      exact h.around _ fun _ => .inr ⟨f, hlive⟩
  | tasklet =>
      obtain ⟨-, hr⟩ := Option.ite_none_right_eq_some.mp hstep
      obtain rfl := Option.some.inj hr
      exact h.around _ fun hs => nomatch hs
  | changes d =>
      obtain rfl := Option.some.inj hstep
      exact h.around d fun hs => .inl hs

/-- A driver that is torn down, if it is, for this reason. -/
def For (why : Teardown) (s : Lifetime) : Prop :=
  ∀ w rest, s.stage = .tearing w rest → w = why

theorem For.back {why : Teardown} {a : Action} {r : List Obs × Lifetime}
    (hstep : step gpioToIrq s a = some r) (h : For why r.2) : For why s := by
  intro w rest hstage
  cases a with
  | probes ok =>
      simp only [Lifetime.step, hstage] at hstep
      cases hstep
  | removes =>
      simp only [Lifetime.step, hstage] at hstep
      cases hstep
  | tears =>
      simp only [Lifetime.step, hstage] at hstep
      split at hstep
      · rename_i why' op ops heq
        injection heq with hwhy _
        obtain ⟨s', -, rfl⟩ := Option.map_eq_some_iff.mp hstep
        rw [hwhy]
        exact h why' ops rfl
      · cases hstep
  | edge f =>
      obtain ⟨-, hr⟩ := Option.ite_none_right_eq_some.mp hstep
      obtain rfl := Option.some.inj hr
      exact h w rest hstage
  | tasklet =>
      obtain ⟨-, hr⟩ := Option.ite_none_right_eq_some.mp hstep
      obtain rfl := Option.some.inj hr
      exact h w rest hstage
  | changes d =>
      obtain rfl := Option.some.inj hstep
      exact h w rest hstage

theorem Inv.held {why : Teardown} (h : Inv gpioToIrq s) (hfor : For why s) (hfrees : why.frees)
    (hdue : s.scheduled = true ∨ ∃ f, s.live f = true) : s.released.any = false := by
  unfold Inv at h
  split at h
  · exact h.2.held
  · exact h.held
  · rename_i w rest hstage
    have hcovered := h.1 (hfor w rest hstage ▸ hfrees)
    exact (hcovered.settled hdue).2

theorem Inv.sound {why : Teardown} (h : Inv gpioToIrq s) (hfor : For why s)
    (hfrees : why.frees) : Sound s := by
  intro hreleased f
  by_contra hlive
  have hheld := h.held hfor hfrees (.inr ⟨f, eq_true_of_ne_false hlive⟩)
  rw [hreleased] at hheld
  cases hheld

theorem Inv.onHeld {why : Teardown} {a : Action} {r : List Obs × Lifetime} (h : Inv gpioToIrq s)
    (hfor : For why s) (hfrees : why.frees) (hstep : Lifetime.step gpioToIrq s a = some r) :
    ∀ o ∈ r.1, o.onHeld := by
  cases a with
  | probes ok =>
      simp only [Lifetime.step] at hstep
      split at hstep
      · obtain ⟨-, hr⟩ := Option.ite_none_right_eq_some.mp hstep
        split at hr
        · obtain rfl := Option.some.inj hr
          simp
        · obtain rfl := Option.some.inj hr
          simp
      · cases hstep
  | removes =>
      simp only [Lifetime.step] at hstep
      split at hstep
      · obtain rfl := Option.some.inj hstep
        simp
      · cases hstep
  | tears =>
      simp only [Lifetime.step] at hstep
      split at hstep
      · obtain ⟨s', -, rfl⟩ := Option.map_eq_some_iff.mp hstep
        simp
      · cases hstep
  | edge f =>
      obtain ⟨hlive, hr⟩ := Option.ite_none_right_eq_some.mp hstep
      obtain rfl := Option.some.inj hr
      intro o ho
      rw [List.mem_singleton.mp ho]
      exact h.held hfor hfrees (.inr ⟨f, hlive⟩)
  | tasklet =>
      obtain ⟨hscheduled, hr⟩ := Option.ite_none_right_eq_some.mp hstep
      obtain rfl := Option.some.inj hr
      intro o ho
      rw [List.mem_singleton.mp ho]
      exact h.held hfor hfrees (.inl hscheduled)
  | changes d =>
      obtain rfl := Option.some.inj hstep
      simp

theorem Leaky.not_sound (h : Leaky [] s) : ¬Sound s := by
  intro hsound
  have hgpios := h.due.resolve_left List.not_mem_nil
  have hreleased : s.released.any = true := by
    simp [Released.any, hgpios]
  have hdead := hsound hreleased .x
  rw [h.live] at hdead
  cases hdead

theorem inv_run {d : Driver} {as : List Action} {r : List Obs × Lifetime}
    (hirq : ∀ f, gpioToIrq f ≠ 0)
    (hexec : System.execute (step gpioToIrq) as (start d) = some r) : Inv gpioToIrq r.2 :=
  System.execute_invariant (fun _ _ _ h hstep => h.step hirq hstep) (inv_start d gpioToIrq) hexec

/-- In every run to the end of a teardown, with edges at any moment: in no state reached is a
fault handler requested once something is released, and no handler and no tasklet runs then,
exactly when the teardown is a probe's that fails elsewhere than in the second or the third
request. -/
theorem no_fault_handler_outlives_iff {d : Driver} {as : List Action} {out : List Obs}
    {s : Lifetime} {why : Teardown} (hirq : ∀ f, gpioToIrq f ≠ 0)
    (hexec : System.execute (step gpioToIrq) as (start d) = some (out, s))
    (hdone : s.stage = .tearing why []) :
    ((∀ bs cs q, as = bs ++ cs → System.execute (step gpioToIrq) bs (start d) = some q →
        Sound q.2) ∧ ∀ o ∈ out, o.onHeld) ↔ why.frees := by
  have hend : For why s := by
    intro w rest hstage
    cases hdone.symm.trans hstage
    rfl
  have hback : ∀ s a r, step gpioToIrq s a = some r → For why r.2 → For why s :=
    fun _ _ _ hstep h => h.back hstep
  have halong := (System.along_of_end hback hexec hend).2
  constructor
  · rintro ⟨hsound, -⟩
    by_contra hleaks
    have hinv := inv_run hirq hexec
    simp only [Inv, hdone] at hinv
    exact (hinv.2 hleaks).not_sound (hsound as [] _ (List.append_nil as).symm hexec)
  · intro hfrees
    constructor
    · intro bs cs q hsplit hfirst
      rw [hsplit] at hexec
      obtain ⟨q', hrest, heq⟩ := System.execute_rest hexec hfirst
      obtain ⟨-, rfl⟩ := Prod.mk.inj heq
      have hfor := (System.along_of_end hback hrest hend).1
      exact (inv_run hirq hfirst).sound hfor hfrees
    · have hstep : ∀ s a r, Inv gpioToIrq s → For why s → step gpioToIrq s a = some r →
          Inv gpioToIrq r.2 ∧ ∀ o ∈ r.1, o.onHeld :=
        fun _ _ _ hinv hfor hstep => ⟨hinv.step hirq hstep, hinv.onHeld hfor hfrees hstep⟩
      exact (System.execute_guarded hstep (inv_start d gpioToIrq) halong hexec).2

private def benchIrq : FaultCondition → Int
  | .x => 1
  | .y1 => 2
  | .y2 => 3

private def benchDriver : Driver := .probe 1 (.over fun _ => 0) (fun _ => false) false

/-- The attribute group fails, with the x motor's fault line low: an edge comes at once. -/
private def groupFails : List Action :=
  List.replicate 20 (.probes true) ++ [.edge .x, .tasklet] ++ List.replicate 2 (.probes true) ++
    [.probes false] ++ List.replicate 12 .tears

theorem no_fault_handler_outlives_group :
    ∃ out s, System.execute (step benchIrq) groupFails (start benchDriver) = some (out, s) ∧
      s.stage = .tearing (.failed .createGroup) [] ∧
      (((∀ bs cs q, groupFails = bs ++ cs →
            System.execute (step benchIrq) bs (start benchDriver) = some q → Sound q.2) ∧
          ∀ o ∈ out, o.onHeld) ↔ (Teardown.failed .createGroup).frees) := by
  have hrun : (System.execute (step benchIrq) groupFails (start benchDriver)).map
      (fun r => r.2.stage) = some (.tearing (.failed .createGroup) []) := by
    decide +kernel
  obtain ⟨⟨out, s⟩, hexec, hdone⟩ := Option.map_eq_some_iff.mp hrun
  exact ⟨out, s, hexec, hdone,
    no_fault_handler_outlives_iff (by intro f; cases f <;> decide) hexec hdone⟩

/-- The request of the second interrupt fails; the first stays, and an edge of its line finds
the pins released. -/
private def secondFails : List Action :=
  List.replicate 20 (.probes true) ++ [.probes false] ++ List.replicate 9 .tears ++ [.edge .x]

theorem no_fault_handler_outlives_false :
    ¬∀ (gpioToIrq : FaultCondition → Int) (d : Driver) (as : List Action) (out : List Obs)
      (s : Lifetime) (why : Teardown), (∀ f, gpioToIrq f ≠ 0) →
      System.execute (step gpioToIrq) as (start d) = some (out, s) → s.stage = .tearing why [] →
      (∀ bs cs q, as = bs ++ cs → System.execute (step gpioToIrq) bs (start d) = some q →
        Sound q.2) ∧ ∀ o ∈ out, o.onHeld := by
  intro h
  have hrun : (System.execute (step benchIrq) secondFails (start benchDriver)).map
      (fun r => (r.2.stage, r.2.live .x, r.2.released.gpios)) =
      some (.tearing (.failed (.requestIrq .y1)) [], true, true) := by
    decide +kernel
  obtain ⟨⟨out, s⟩, hexec, hend⟩ := Option.map_eq_some_iff.mp hrun
  simp only [Prod.mk.injEq] at hend
  obtain ⟨hdone, hlive, hgpios⟩ := hend
  have hsound := (h benchIrq benchDriver secondFails out s _ (by intro f; cases f <;> decide) hexec
    hdone).1 secondFails [] _ (List.append_nil _).symm hexec
  have hdead := hsound (by simp [Released.any, hgpios]) .x
  rw [hlive] at hdead
  cases hdead

end Lifetime

end Glowforge.Cnc
