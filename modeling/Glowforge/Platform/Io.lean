import Glowforge.Platform.Resources

/-! The GPIOs and PWM channels as `io.c` takes and releases them. Nothing stays taken when
the kernel refuses a part, and a second release finds nothing to give back. -/
namespace Glowforge.Platform
open Foundation Routine

/-! GPIOs. -/

section Gpios

variable {ι : Type}

abbrev requested (gpios : ι → Int) (pins : List ι) : List Resource :=
  slots (fun _ g => .gpio g) gpios pins

/-- The first loop of `io_init_gpios`. -/
def lookupErr (namedGpio : ι → Int) (pins : List ι) : Int :=
  pins.foldl (fun err i => if namedGpio i < 0 then namedGpio i else err) 0

theorem lookupErr_append (namedGpio : ι → Int) (pins : List ι) (i : ι) :
    lookupErr namedGpio (pins ++ [i]) =
      if namedGpio i < 0 then namedGpio i else lookupErr namedGpio pins := by
  simp [lookupErr]

theorem lookupErr_nonneg {namedGpio : ι → Int} {pins : List ι} (h : 0 ≤ lookupErr namedGpio pins) :
    ∀ i ∈ pins, 0 ≤ namedGpio i := by
  induction pins using List.reverseRecOn with
  | nil => simp
  | append_singleton pins i ih =>
      rw [lookupErr_append] at h
      by_cases hneg : namedGpio i < 0
      · rw [if_pos hneg] at h
        exact absurd h (not_le.mpr hneg)
      · rw [if_neg hneg] at h
        intro j hj
        rcases List.mem_append.mp hj with hj | hj
        · exact ih h j hj
        · exact List.mem_singleton.mp hj ▸ not_lt.mp hneg

def ioChangePins (gpios : ι → Int) (changes : List ι) : Call Unit :=
  touchAll (changes.map fun i => .gpio (gpios i))

variable [DecidableEq ι]

def ioReleaseGpios (pins : List ι) (gpios : ι → Int) : Call (ι → Int) :=
  releaseSlots (fun _ g => .gpio g) pins gpios

/-- The second loop of `io_init_gpios`: it goes on after a pin that is refused. -/
def requestGpios (requestOne : ι → Int) : List ι → (ι → Int) → Int → Call (Int × (ι → Int))
  | [], gpios, err => pure (err, gpios)
  | i :: rest, gpios, err => do
      let ret ← acquire (.gpio (gpios i)) (requestOne i)
      if ret < 0 then requestGpios requestOne rest (Function.update gpios i (-1)) ret
      else requestGpios requestOne rest gpios err

/-- `io_init_gpios`, with what the device tree says of each pin and what the kernel says to
each request. -/
def ioInitGpios (namedGpio requestOne : ι → Int) (pins : List ι) : Call (Int × (ι → Int)) :=
  if lookupErr namedGpio pins < 0 then pure (lookupErr namedGpio pins, namedGpio)
  else do
    let r ← requestGpios requestOne pins namedGpio 0
    if r.1 = 0 then pure r
    else do
      let gpios ← ioReleaseGpios pins r.2
      pure (r.1, gpios)

theorem triple_ioReleaseGpios {base : Finset Resource} {pins : List ι} {gpios : ι → Int}
    (hpins : pins.Nodup) (hdistinct : (requested gpios pins).Nodup) :
    Triple base (requested gpios pins).toFinset (ioReleaseGpios pins gpios)
      fun gpios' own' => own' = ∅ ∧ ∀ i ∈ pins, gpios' i < 0 :=
  triple_releaseSlots (fun _ _ _ _ => Finset.notMem_empty _) hpins hdistinct

theorem triple_requestGpios {base : Finset Resource} (requestOne : ι → Int) (done : List ι)
    {rest : List ι} {gpios : ι → Int} {err : Int} (hpins : (done ++ rest).Nodup)
    (hdistinct : (requested gpios done).Nodup) (hrest : ∀ i ∈ rest, 0 ≤ gpios i) (herr : err ≤ 0)
    (hdone : err = 0 → ∀ i ∈ done, 0 ≤ gpios i) :
    Triple base (requested gpios done).toFinset (requestGpios requestOne rest gpios err)
      fun r own' => own' = (requested r.2 (done ++ rest)).toFinset ∧
        (requested r.2 (done ++ rest)).Nodup ∧ r.1 ≤ 0 ∧
        (r.1 = 0 → ∀ i ∈ done ++ rest, 0 ≤ r.2 i) := by
  induction rest generalizing done gpios err with
  | nil =>
      rw [List.append_nil]
      exact .ret ⟨rfl, hdistinct, herr, hdone⟩
  | cons i rest ih =>
      obtain ⟨hnotdone, hnotrest⟩ := notMem_of_nodup_append_cons hpins
      have hpos := hrest i List.mem_cons_self
      have hlater : ∀ j ∈ rest, 0 ≤ gpios j := fun j hj => hrest j (List.mem_cons_of_mem _ hj)
      rw [List.append_cons done i rest] at hpins ⊢
      refine .bind (triple_grant _ hnotdone hpos hdistinct (Finset.empty_subset _)) ?_
      rintro ret own' (⟨rfl, rfl, hdistinct'⟩ | ⟨hret, rfl⟩)
      · rw [Function.update_eq_self] at hdistinct' ⊢
        rw [if_neg (by decide)]
        refine ih _ hpins hdistinct' hlater herr ?_
        intro hzero j hj
        rcases List.mem_append.mp hj with hj | hj
        · exact hdone hzero j hj
        · exact List.mem_singleton.mp hj ▸ hpos
      · have hheld : requested (Function.update gpios i (-1)) (done ++ [i]) =
            requested gpios done := slots_refused hnotdone
        rw [if_pos hret]
        change Triple base (requested gpios done).toFinset _ _
        rw [← hheld]
        refine ih _ hpins (by rwa [hheld]) ?_ hret.le ?_
        · intro j hj
          have hne : j ≠ i := by
            rintro rfl
            exact hnotrest hj
          rw [Function.update_of_ne hne]
          exact hlater j hj
        · exact fun hzero => absurd hzero hret.ne

/-- All pins are taken, or none is. -/
theorem triple_ioInitGpios {base : Finset Resource} (namedGpio requestOne : ι → Int)
    {pins : List ι} (hpins : pins.Nodup) :
    Triple base ∅ (ioInitGpios namedGpio requestOne pins) fun r own' =>
      (r.1 < 0 ∧ own' = ∅) ∨
      (r.1 = 0 ∧ own' = (requested r.2 pins).toFinset ∧ (requested r.2 pins).Nodup ∧
        ∀ i ∈ pins, 0 ≤ r.2 i) := by
  unfold ioInitGpios
  by_cases hlookup : lookupErr namedGpio pins < 0
  · rw [if_pos hlookup]
    exact .ret (.inl ⟨hlookup, rfl⟩)
  · rw [if_neg hlookup]
    have hfound := lookupErr_nonneg (not_lt.mp hlookup)
    refine .bind (triple_requestGpios requestOne [] hpins List.nodup_nil hfound le_rfl (by simp)) ?_
    rintro r own' ⟨rfl, hdistinct, hle, hall⟩
    by_cases hok : r.1 = 0
    · rw [if_pos hok]
      exact .ret (.inr ⟨hok, rfl, hdistinct, hall hok⟩)
    · rw [if_neg hok]
      refine .bind (triple_ioReleaseGpios hpins hdistinct) ?_
      rintro gpios own' ⟨rfl, -⟩
      exact .ret (.inl ⟨lt_of_le_of_ne hle hok, rfl⟩)

end Gpios

/-! PWM channels. -/

structure PwmChannel where
  pwmdev : Option Nat
  period : BitVec 32
  dutyFraction : BitVec 16
  deriving DecidableEq, Repr

/-- What the kernel has behind the name of a channel, and what it answers. -/
structure PwmAnswers (ι : Type) where
  pwmdev : ι → Nat
  get : ι → Int
  config : ι → Int
  enable : ι → Int

section Pwms

variable {ι : Type}

def pwmdevs (chs : ι → PwmChannel) (pwms : List ι) : List Nat :=
  pwms.filterMap fun i => (chs i).pwmdev

structure Channels (devs : List Nat) (own : Finset Resource) : Prop where
  got : ∀ d ∈ devs, .pwm d ∈ own
  only : ∀ r ∈ own, ∃ d ∈ devs, r = .pwm d ∨ r = .pwmEnabled d

theorem Channels.kinds {devs : List Nat} {own : Finset Resource} (h : Channels devs own) :
    Kinds [.pwm, .pwmEnabled] own := by
  intro r hr
  obtain ⟨d, -, rfl | rfl⟩ := h.only r hr
  · exact List.mem_cons_self
  · exact List.mem_cons_of_mem _ (List.mem_singleton_self _)

theorem Channels.empty : Channels [] ∅ := ⟨by simp, by simp⟩

theorem pwmdevs_cons {chs : ι → PwmChannel} {i : ι} {rest : List ι} {d : Nat}
    (h : (chs i).pwmdev = some d) : pwmdevs chs (i :: rest) = d :: pwmdevs chs rest :=
  List.filterMap_cons_some h

theorem pwmdevs_cons_none {chs : ι → PwmChannel} {i : ι} {rest : List ι}
    (h : (chs i).pwmdev = none) : pwmdevs chs (i :: rest) = pwmdevs chs rest :=
  List.filterMap_cons_none h

theorem pwmdevs_congr {chs chs' : ι → PwmChannel} {pwms : List ι}
    (h : ∀ i ∈ pwms, (chs i).pwmdev = (chs' i).pwmdev) : pwmdevs chs pwms = pwmdevs chs' pwms :=
  List.filterMap_congr h

/-- The second loop of `io_init_pwms`. -/
def enablePwms (k : PwmAnswers ι) (chs : ι → PwmChannel) : List ι → Call Int
  | [] => pure 0
  | i :: rest =>
      match (chs i).pwmdev with
      | none => enablePwms k chs rest
      | some d => do
          touch (.pwm d)
          if k.config i ≠ 0 then pure (k.config i)
          else do
            let ret ← ensure (.pwmEnabled d) (k.enable i)
            if ret ≠ 0 then pure ret else enablePwms k chs rest

theorem triple_enablePwms {base own : Finset Resource} (k : PwmAnswers ι) {chs : ι → PwmChannel}
    {pwms rest : List ι} (hrest : rest ⊆ pwms) (hown : Channels (pwmdevs chs pwms) own) :
    Triple base own (enablePwms k chs rest) fun _ own' => Channels (pwmdevs chs pwms) own' := by
  induction rest generalizing own with
  | nil => exact .ret hown
  | cons i rest ih =>
      obtain ⟨hi, hrest⟩ := List.cons_subset.mp hrest
      rw [enablePwms]
      cases hdev : (chs i).pwmdev with
      | none => exact ih hrest hown
      | some d =>
          have hd : d ∈ pwmdevs chs pwms := List.mem_filterMap.mpr ⟨i, hi, hdev⟩
          have hheld := hown.got d hd
          refine .bind (triple_touch (Finset.mem_union_right _ hheld)) ?_
          rintro _ own' rfl
          by_cases hconfig : k.config i ≠ 0
          · rw [if_pos hconfig]
            exact .ret hown
          rw [if_neg hconfig]
          have hneeds : Resource.needs (.pwmEnabled d) ⊆ base ∪ own' :=
            Finset.singleton_subset_iff.mpr (Finset.mem_union_right _ hheld)
          refine .bind (triple_ensure _ hneeds hheld (Finset.mem_singleton_self _)) ?_
          rintro ret own'' (⟨rfl, rfl⟩ | ⟨hret, rfl⟩)
          · rw [if_neg (by decide)]
            refine ih hrest ⟨fun d' hd' => Finset.mem_insert_of_mem (hown.got d' hd'), ?_⟩
            intro r hr
            rcases Finset.mem_insert.mp hr with rfl | hr
            · exact ⟨d, hd, .inr rfl⟩
            · exact hown.only r hr
          · rw [if_pos hret.ne]
            exact .ret hown

variable [DecidableEq ι]

def ioReleasePwms : List ι → (ι → PwmChannel) → Call (ι → PwmChannel)
  | [], chs => pure chs
  | i :: rest, chs =>
      match (chs i).pwmdev with
      | some d => do
          drop (.pwmEnabled d)
          release (.pwm d)
          ioReleasePwms rest (Function.update chs i { chs i with pwmdev := none })
      | none => ioReleasePwms rest chs

/-- The first loop of `io_init_pwms`. -/
def getPwms (period : ι → BitVec 32) (k : PwmAnswers ι) :
    List ι → (ι → PwmChannel) → Call (Int × (ι → PwmChannel))
  | [], chs => pure (0, chs)
  | i :: rest, chs =>
      if period i = 0 then pure (-1, chs)
      else do
        let ret ← acquire (.pwm (k.pwmdev i)) (k.get i)
        if ret < 0 then
          pure (-1, Function.update chs i { chs i with pwmdev := none, period := period i })
        else
          getPwms period k rest
            (Function.update chs i { chs i with pwmdev := some (k.pwmdev i), period := period i })

def ioInitPwms (period : ι → BitVec 32) (k : PwmAnswers ι) (pwms : List ι) :
    Call (Int × (ι → PwmChannel)) := do
  let r ← getPwms period k pwms fun _ => ⟨none, 0, 0⟩
  let ret ← (if r.1 = 0 then enablePwms k r.2 pwms else pure r.1)
  if ret = 0 then pure (0, r.2)
  else do
    let chs ← ioReleasePwms pwms r.2
    pure (ret, chs)

theorem pwmdevs_update {chs : ι → PwmChannel} {i : ι} {rest : List ι} (h : i ∉ rest)
    (ch : PwmChannel) : pwmdevs (Function.update chs i ch) rest = pwmdevs chs rest := by
  apply pwmdevs_congr
  intro j hj
  have hne : j ≠ i := by
    rintro rfl
    exact h hj
  rw [Function.update_of_ne hne]

theorem triple_ioReleasePwms {base own : Finset Resource} {pwms : List ι} {chs : ι → PwmChannel}
    (hpwms : pwms.Nodup) (hdistinct : (pwmdevs chs pwms).Nodup)
    (hown : Channels (pwmdevs chs pwms) own) :
    Triple base own (ioReleasePwms pwms chs)
      fun chs' own' => own' = ∅ ∧ ∀ i ∈ pwms, (chs' i).pwmdev = none := by
  -- induction on the channels; what was forgotten stays so
  suffices hkeeps : Triple base own (ioReleasePwms pwms chs)
      fun chs' own' => own' = ∅ ∧ (∀ i ∈ pwms, (chs' i).pwmdev = none) ∧
        ∀ i, i ∉ pwms → chs' i = chs i from
    hkeeps.mono fun _ _ h => ⟨h.1, h.2.1⟩
  induction pwms generalizing chs own with
  | nil =>
      have hempty : own = ∅ := by
        refine Finset.eq_empty_of_forall_notMem fun r hr => ?_
        obtain ⟨d, hd, -⟩ := hown.only r hr
        cases hd
      exact .ret ⟨hempty, by simp, fun _ _ => rfl⟩
  | cons i rest ih =>
      obtain ⟨hi, hrest⟩ := List.nodup_cons.mp hpwms
      rw [ioReleasePwms]
      cases hdev : (chs i).pwmdev with
      | none =>
          rw [pwmdevs_cons_none hdev] at hdistinct hown
          apply (ih hrest hdistinct hown).mono
          rintro chs' own' ⟨hempty, hforgotten, hkept⟩
          refine ⟨hempty, ?_, ?_⟩
          · intro j hj
            rcases List.mem_cons.mp hj with rfl | hj
            · rw [hkept j hi]
              exact hdev
            · exact hforgotten j hj
          · intro j hj
            exact hkept j fun h => hj (List.mem_cons_of_mem _ h)
      | some d =>
          rw [pwmdevs_cons hdev] at hdistinct hown
          obtain ⟨hnew, hdistinct⟩ := List.nodup_cons.mp hdistinct
          have hneeds : ∀ s ∈ own, ∀ r ∈ s.needs, ∃ d', s = .pwmEnabled d' ∧ r = .pwm d' := by
            intro s hs r hr
            obtain ⟨d', -, rfl | rfl⟩ := hown.only s hs
            · cases hr
            · exact ⟨d', rfl, Finset.mem_singleton.mp hr⟩
          refine .bind (triple_drop (p := .pwm d) (hown.got d List.mem_cons_self)
            (Finset.mem_singleton_self _) ?_) ?_
          · intro s hs _ hr
            obtain ⟨d', -, heq⟩ := hneeds s hs _ hr
            cases heq
          rintro _ own' rfl
          refine .bind (triple_release ?_ ?_) ?_
          · refine Finset.mem_erase.mpr ⟨?_, hown.got d List.mem_cons_self⟩
            exact Resource.noConfusion
          · intro s hs _ hr
            obtain ⟨hne, hs⟩ := Finset.mem_erase.mp hs
            obtain ⟨d', rfl, heq⟩ := hneeds s hs _ hr
            cases heq
            exact hne rfl
          rintro _ own' rfl
          have hforget : pwmdevs (Function.update chs i { chs i with pwmdev := none }) rest =
              pwmdevs chs rest := pwmdevs_update hi _
          have hleft : Channels (pwmdevs chs rest) ((own.erase (.pwmEnabled d)).erase (.pwm d)) := by
            constructor
            · intro d' hd'
              refine Finset.mem_erase.mpr ⟨?_, Finset.mem_erase.mpr ⟨Resource.noConfusion, ?_⟩⟩
              · rintro ⟨⟩
                exact hnew hd'
              · exact hown.got d' (List.mem_cons_of_mem _ hd')
            · intro r hr
              obtain ⟨hnotpwm, hr⟩ := Finset.mem_erase.mp hr
              obtain ⟨hnotenabled, hr⟩ := Finset.mem_erase.mp hr
              obtain ⟨d', hd', heq⟩ := hown.only r hr
              rcases List.mem_cons.mp hd' with rfl | hd'
              · exact (heq.elim hnotpwm hnotenabled).elim
              · exact ⟨d', hd', heq⟩
          apply (ih hrest (hforget ▸ hdistinct) (hforget ▸ hleft)).mono
          rintro chs' own' ⟨hempty, hforgotten, hkept⟩
          refine ⟨hempty, ?_, ?_⟩
          · intro j hj
            rcases List.mem_cons.mp hj with rfl | hj
            · rw [hkept j hi, Function.update_self]
            · exact hforgotten j hj
          · intro j hj
            obtain ⟨hne, hj⟩ := not_or.mp fun h => hj (List.mem_cons.mpr h)
            rw [hkept j hj, Function.update_of_ne hne]

theorem triple_getPwms {base own : Finset Resource} (period : ι → BitVec 32) (k : PwmAnswers ι)
    (done : List ι) {rest : List ι} {chs : ι → PwmChannel} (hpwms : (done ++ rest).Nodup)
    (hdistinct : (pwmdevs chs done).Nodup) (hrest : ∀ i ∈ rest, (chs i).pwmdev = none)
    (hown : Channels (pwmdevs chs done) own) :
    Triple base own (getPwms period k rest chs) fun r own' =>
      Channels (pwmdevs r.2 (done ++ rest)) own' ∧ (pwmdevs r.2 (done ++ rest)).Nodup := by
  induction rest generalizing done chs own with
  | nil =>
      rw [List.append_nil]
      exact .ret ⟨hown, hdistinct⟩
  | cons i rest ih =>
      have hsplit : done ++ i :: rest = (done ++ [i]) ++ rest := List.append_cons done i rest
      have hi := notMem_of_nodup_append_cons hpwms
      have hlater : ∀ ch : PwmChannel, ∀ j ∈ rest, (Function.update chs i ch j).pwmdev = none := by
        intro ch j hj
        have hne : j ≠ i := by
          rintro rfl
          exact hi.2 hj
        rw [Function.update_of_ne hne]
        exact hrest j (List.mem_cons_of_mem _ hj)
      -- a channel without a device, and none after it, add nothing to give back
      have hstopped : ∀ ch : PwmChannel, ch.pwmdev = none →
          pwmdevs (Function.update chs i ch) (done ++ i :: rest) = pwmdevs chs done := by
        intro ch hch
        have hnone : pwmdevs (Function.update chs i ch) (i :: rest) = [] := by
          refine List.filterMap_eq_nil_iff.mpr fun j hj => ?_
          rcases List.mem_cons.mp hj with rfl | hj
          · rwa [Function.update_self]
          · exact hlater ch j hj
        rw [pwmdevs, List.filterMap_append]
        change pwmdevs _ done ++ pwmdevs _ (i :: rest) = _
        rw [hnone, List.append_nil, pwmdevs_update hi.1]
      rw [getPwms]
      by_cases hperiod : period i = 0
      · rw [if_pos hperiod]
        have hsame := hstopped (chs i) (hrest i List.mem_cons_self)
        rw [Function.update_eq_self] at hsame
        exact .ret ⟨hsame ▸ hown, hsame ▸ hdistinct⟩
      rw [if_neg hperiod]
      refine .bind (triple_acquire _ (Finset.empty_subset _)) ?_
      rintro ret own' (⟨rfl, hnew, rfl⟩ | ⟨hret, rfl⟩)
      · rw [if_neg (by decide), hsplit]
        rw [hsplit] at hpwms
        have hgot : pwmdevs (Function.update chs i { chs i with
            pwmdev := some (k.pwmdev i), period := period i }) (done ++ [i]) =
            pwmdevs chs done ++ [k.pwmdev i] := by
          rw [pwmdevs, List.filterMap_append]
          change pwmdevs _ done ++ pwmdevs _ [i] = _
          rw [pwmdevs_update hi.1, pwmdevs_cons (d := k.pwmdev i) (by rw [Function.update_self])]
          rfl
        have hnot : k.pwmdev i ∉ pwmdevs chs done := fun h =>
          hnew (Finset.mem_union_right _ (hown.got _ h))
        refine ih _ hpwms ?_ (hlater _) ?_
        · rw [hgot]
          refine List.nodup_append.mpr ⟨hdistinct, List.nodup_singleton _, ?_⟩
          rintro d hd _ hd' rfl
          exact hnot (List.mem_singleton.mp hd' ▸ hd)
        · rw [hgot]
          constructor
          · intro d hd
            rcases List.mem_append.mp hd with hd | hd
            · exact Finset.mem_insert_of_mem (hown.got d hd)
            · exact List.mem_singleton.mp hd ▸ Finset.mem_insert_self _ _
          · intro r hr
            rcases Finset.mem_insert.mp hr with rfl | hr
            · exact ⟨_, List.mem_append_right _ (List.mem_singleton_self _), .inl rfl⟩
            · obtain ⟨d, hd, heq⟩ := hown.only r hr
              exact ⟨d, List.mem_append_left _ hd, heq⟩
      · rw [if_pos hret]
        have hsame := hstopped { chs i with pwmdev := none, period := period i } rfl
        exact .ret ⟨hsame ▸ hown, hsame ▸ hdistinct⟩

theorem triple_ioInitPwms {base : Finset Resource} (period : ι → BitVec 32) (k : PwmAnswers ι)
    {pwms : List ι} (hpwms : pwms.Nodup) :
    Triple base ∅ (ioInitPwms period k pwms) fun r own' =>
      (r.1 ≠ 0 ∧ own' = ∅) ∨
      (r.1 = 0 ∧ Channels (pwmdevs r.2 pwms) own' ∧ (pwmdevs r.2 pwms).Nodup) := by
  unfold ioInitPwms
  refine .bind (triple_getPwms period k [] hpwms List.nodup_nil (fun _ _ => rfl) Channels.empty) ?_
  rintro r own ⟨hown, hdistinct⟩
  rw [List.nil_append] at hown hdistinct
  have henable : Triple base own (if r.1 = 0 then enablePwms k r.2 pwms else pure r.1 : Call Int)
      fun _ own' => Channels (pwmdevs r.2 pwms) own' := by
    split
    · exact triple_enablePwms k (List.Subset.refl _) hown
    · exact .ret hown
  refine .bind henable ?_
  intro ret own' hown'
  by_cases hret : ret = 0
  · rw [if_pos hret]
    exact .ret (.inr ⟨rfl, hown', hdistinct⟩)
  · rw [if_neg hret]
    refine .bind (triple_ioReleasePwms hpwms hdistinct hown') ?_
    rintro chs own'' ⟨rfl, -⟩
    exact .ret (.inl ⟨hret, rfl⟩)

end Pwms

end Glowforge.Platform
