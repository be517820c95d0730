import Glowforge.Platform.Resources

/-! `pic.c` and `head.c` from probe to removal, and the LED devices of `pic_leds.c`, which are
unregistered in one go however far their registration came. -/
namespace Glowforge.Platform
open Foundation Routine

def LedClassdev.all : List LedClassdev := [.lidLed, .buttonLed1, .buttonLed2, .buttonLed3]

def picMagicNumber : Int := 0x4d53

def headMagicNumber : Int := 0x044c

/-- What `pic_probe` is told; `dummy` is what the read of `PIC_REG_DUMMY` returns. -/
structure PicAnswers where
  enabled : Bool
  kzalloc : Int
  kmalloc : Int
  dummy : Int
  triggerRegister : Int
  allocWorkqueue : Int
  ledRegister : LedClassdev → Int
  createGroup : Int
  createLink : Int

/-! The LEDs; the `dev` of one that is not registered is negative here. -/

def ledClassdev (led : LedClassdev) (_ : Int) : Resource := .led led

def picUnregisterLeds (dev : LedClassdev → Int) : Call Unit := do
  release .ledTrigger
  let _ ← releaseSlots ledClassdev LedClassdev.all dev
  release .ledWq

def registerLeds (k : PicAnswers) :
    List LedClassdev → (LedClassdev → Int) → Call (Int × (LedClassdev → Int))
  | [], dev => pure (0, dev)
  | led :: rest, dev => do
      let ret ← acquire (ledClassdev led 0) (k.ledRegister led)
      if ret ≠ 0 then do
        picUnregisterLeds dev
        pure (ret, dev)
      else registerLeds k rest (Function.update dev led 0)

def picRegisterLeds (k : PicAnswers) : Call (Int × (LedClassdev → Int)) := do
  let ret ← acquire .ledTrigger k.triggerRegister
  if ret ≠ 0 then pure (ret, fun _ => -1)
  else do
    let ret ← acquire .ledWq k.allocWorkqueue
    if ret < 0 then do
      release .ledTrigger
      pure (-12, fun _ => -1)
    else registerLeds k LedClassdev.all fun _ => -1

def picMakeSafe : Call Unit := touchAll [.data .pic]

/-- `pic_probe`, once the driver data are there; the driver data keep the LED devices. -/
def picSetUp (k : PicAnswers) : Call (Int × (LedClassdev → Int)) := do
  touch (.data .pic)
  if k.dummy < 0 then pure (k.dummy, fun _ => -1)
  else if k.dummy ≠ picMagicNumber then pure (-19, fun _ => -1)
  else do
    let l ← picRegisterLeds k
    if l.1 < 0 then pure l
    else do
      let ret ← acquire (.group .pic [] []) k.createGroup
      if ret < 0 then do
        picUnregisterLeds l.2
        pure (ret, l.2)
      else do
        let ret ← acquire (.link .pic) k.createLink
        if ret ≠ 0 then do
          release (.group .pic [] [])
          picUnregisterLeds l.2
          pure (ret, l.2)
        else do
          let _ ← acquire (.notifier .pic []) 0
          touch (.data .pic)
          pure (0, l.2)

def picProbe (k : PicAnswers) : Call (Probed (LedClassdev → Int)) :=
  if k.enabled then do
    let ret ← acquire (.data .pic) k.kzalloc
    if ret < 0 then pure ⟨-12, none, []⟩
    else if k.kmalloc < 0 then pure ⟨-12, none, [.data .pic]⟩
    else do
      let r ← picSetUp k
      pure ⟨r.1, some r.2, [.data .pic]⟩
  else pure ⟨0, none, []⟩

def picRemove : Option (LedClassdev → Int) → Call Unit
  | none => pure ()
  | some dev => do
      picMakeSafe
      release (.notifier .pic [])
      release (.link .pic)
      release (.group .pic [] [])
      picUnregisterLeds dev

structure HasLeds (dev : LedClassdev → Int) (done : List LedClassdev) (own : Finset Resource) :
    Prop where
  distinct : (slots ledClassdev dev done).Nodup
  own_eq : own = insert .ledTrigger (insert .ledWq (slots ledClassdev dev done).toFinset)

variable {base own : Finset Resource} {dev : LedClassdev → Int} {done rest : List LedClassdev}

theorem HasLeds.kinds (h : HasLeds dev done own) : Kinds [.ledTrigger, .ledWq, .led] own := by
  rw [h.own_eq]
  exact ((kinds_slots (k := .led) _ (fun _ _ => rfl) _ _).insert rfl).insert rfl

/-- No queue goes before its last device. -/
theorem triple_picUnregisterLeds (h : HasLeds dev LedClassdev.all own) :
    Triple base own (picUnregisterLeds dev) fun _ own' => own' = ∅ := by
  have hleds : Kinds [.led] (slots ledClassdev dev LedClassdev.all).toFinset :=
    kinds_slots (k := .led) _ (fun _ _ => rfl) _ _
  have htrigger : ∀ s : Resource, .ledTrigger ∉ s.needs := by
    intro s
    cases s <;> simp [Resource.needs]
  have hleaf : ∀ led n led' n', ledClassdev led n ∉ (ledClassdev led' n').needs := fun _ _ _ _ =>
    Resource.unneeded rfl _
  rw [h.own_eq]
  have hwq := (hleds.insert (r := .ledWq) rfl).notMem (r := .ledTrigger) rfl (by decide)
  refine .bind (triple_release_insert hwq fun s _ => htrigger s) ?_
  rintro _ _ rfl
  rw [Finset.insert_eq, Finset.union_comm]
  have hqueue : Kinds [.ledWq] {.ledWq} := Kinds.singleton rfl
  have hfree := hleds.free hqueue (by decide)
  refine .bind ((triple_releaseSlots hleaf (by decide) h.distinct).without
    (fun _ _ h => h.1) hfree) ?_
  rintro dev' own' ⟨rfl, -⟩
  refine (triple_release (Finset.mem_singleton_self _) ?_).mono ?_
  · intro s hs hne
    exact absurd (Finset.mem_singleton.mp hs) hne
  · rintro _ own' rfl
    exact Finset.erase_singleton _

theorem triple_registerLeds (k : PicAnswers) (done : List LedClassdev)
    (hall : done ++ rest = LedClassdev.all) (hrest : ∀ led ∈ rest, dev led < 0)
    (hbase : .data .pic ∈ base) (h : HasLeds dev done own) :
    Triple base own (registerLeds k rest dev) fun r own' =>
      (r.1 < 0 ∧ own' = ∅) ∨ (r.1 = 0 ∧ HasLeds r.2 LedClassdev.all own') := by
  induction rest generalizing done dev own with
  | nil =>
      rw [List.append_nil] at hall
      subst hall
      exact .ret (.inr ⟨rfl, h⟩)
  | cons led rest ih =>
      have hnodup : (done ++ led :: rest).Nodup := hall ▸ by decide
      obtain ⟨hnotdone, hnotrest⟩ := notMem_of_nodup_append_cons hnodup
      have hneeds : (ledClassdev led 0).needs ⊆ base ∪ own := by
        rw [h.own_eq]
        refine Finset.insert_subset (Finset.mem_union_left _ hbase) ?_
        simp
      refine .bind (triple_acquire _ hneeds) ?_
      rintro ret own' (⟨rfl, hnew, rfl⟩ | ⟨hret, rfl⟩)
      · rw [if_neg (not_not.mpr rfl)]
        have hheld : slots ledClassdev (Function.update dev led 0) (done ++ [led]) =
            slots ledClassdev dev done ++ [ledClassdev led 0] := slots_granted hnotdone le_rfl
        have hnot : ledClassdev led 0 ∉ slots ledClassdev dev done := by
          intro hmem
          refine hnew (Finset.mem_union_right _ ?_)
          rw [h.own_eq]
          exact Finset.mem_insert_of_mem (Finset.mem_insert_of_mem (List.mem_toFinset.mpr hmem))
        refine ih _ (by rwa [← List.append_cons]) ?_ ⟨?_, ?_⟩
        · intro led' hled'
          have hne : led' ≠ led := by
            rintro rfl
            exact hnotrest hled'
          rw [Function.update_of_ne hne]
          exact hrest led' (List.mem_cons_of_mem _ hled')
        · rw [hheld]
          refine List.nodup_append.mpr ⟨h.distinct, List.nodup_singleton _, ?_⟩
          rintro r hr _ hr' rfl
          exact hnot (List.mem_singleton.mp hr' ▸ hr)
        · rw [hheld, h.own_eq]
          ext r
          simp
          tauto
      · rw [if_pos hret.ne]
        have hsame : slots ledClassdev dev LedClassdev.all = slots ledClassdev dev done := by
          rw [← hall, slots_append, slots_of_neg _ hrest, List.append_nil]
        refine .bind (triple_picUnregisterLeds ⟨hsame ▸ h.distinct, hsame ▸ h.own_eq⟩) ?_
        rintro _ own' rfl
        exact .ret (.inl ⟨hret, rfl⟩)

theorem triple_picRegisterLeds (k : PicAnswers) (hbase : .data .pic ∈ base) :
    Triple base ∅ (picRegisterLeds k) fun r own' =>
      (r.1 < 0 ∧ own' = ∅) ∨ (r.1 = 0 ∧ HasLeds r.2 LedClassdev.all own') := by
  unfold picRegisterLeds
  refine .bind (triple_acquire _ (Finset.empty_subset _)) ?_
  rintro ret own' (⟨rfl, -, rfl⟩ | ⟨hret, rfl⟩)
  swap
  · rw [if_pos hret.ne]
    exact .ret (.inl ⟨hret, rfl⟩)
  rw [if_neg (not_not.mpr rfl)]
  refine .bind (triple_acquire _ (Finset.empty_subset _)) ?_
  rintro ret own' (⟨rfl, -, rfl⟩ | ⟨hret, rfl⟩)
  · rw [if_neg (lt_irrefl 0)]
    refine triple_registerLeds k [] rfl (by simp) hbase ⟨List.nodup_nil, ?_⟩
    exact Finset.insert_comm _ _ _
  · rw [if_pos hret]
    refine .bind (triple_release_insert (Finset.notMem_empty _) (by simp)) ?_
    rintro _ _ rfl
    exact .ret (.inl ⟨by decide, rfl⟩)

theorem triple_picSetUp (k : PicAnswers) (hkobject : .kobject ∈ base) :
    Triple base {.data .pic} (picSetUp k) fun r own' =>
      (r.1 ≠ 0 ∧ own' = {.data .pic}) ∨
        (r.1 = 0 ∧ ∃ leds, HasLeds r.2 LedClassdev.all leds ∧
          Free Resource.needs leds {.data .pic} ∧
          own' = published .pic (leds ∪ {.data .pic})) := by
  have hdata : Resource.data .pic ∈ base ∪ {.data .pic} :=
    Finset.mem_union_right _ (Finset.mem_singleton_self _)
  unfold picSetUp
  refine .bind (triple_touch hdata) ?_
  rintro _ _ rfl
  by_cases hdummy : k.dummy < 0
  · rw [if_pos hdummy]
    exact .ret (.inl ⟨hdummy.ne, rfl⟩)
  rw [if_neg hdummy]
  by_cases hmagic : k.dummy ≠ picMagicNumber
  · rw [if_pos hmagic]
    exact .ret (.inl ⟨(by decide : (-19 : Int) ≠ 0), rfl⟩)
  rw [if_neg hmagic]
  refine .bind (triple_picRegisterLeds k hdata).beside ?_
  rintro l own ⟨leds, hl, hfree, rfl⟩
  rcases hl with ⟨hfail, rfl⟩ | ⟨hok, hleds⟩
  · rw [if_pos hfail, Finset.empty_union]
    exact .ret (.inl ⟨hfail.ne, rfl⟩)
  rw [if_neg (not_lt.mpr hok.ge)]
  have hkinds := hleds.kinds.union (Kinds.singleton (r := .data .pic) rfl)
  have hmem : Resource.data .pic ∈ leds ∪ {.data .pic} :=
    Finset.mem_union_right _ (Finset.mem_singleton_self _)
  refine triple_publish (fun ret => picUnregisterLeds l.2 >>= fun _ => pure (ret, l.2)) hkinds
    (by decide) hmem hkobject ?_ ?_
  · intro ret hret
    refine .bind ((triple_picUnregisterLeds hleds).without (fun _ _ h => h) hfree) ?_
    rintro _ _ ⟨rfl, -⟩
    exact .ret (.inl ⟨hret.ne, rfl⟩)
  · refine .bind (triple_touch ?_) ?_
    · simp [published]
    rintro _ _ rfl
    exact .ret (.inr ⟨rfl, leds, hleds, hfree, rfl⟩)

theorem triple_picRemove {leds : Finset Resource} (h : HasLeds dev LedClassdev.all leds)
    (hfree : Free Resource.needs leds {.data .pic}) :
    Triple base (published .pic (leds ∪ {.data .pic})) (picRemove (some dev))
      fun _ own' => own' = {.data .pic} := by
  have hkinds := h.kinds.union (Kinds.singleton (r := .data .pic) rfl)
  refine .bind (triple_touchAll ?_) ?_
  · simp [published]
  rintro _ _ rfl
  refine triple_unpublish hkinds (by decide) ?_
  exact ((triple_picUnregisterLeds h).without (fun _ _ h => h) hfree).mono fun _ _ h => h.1

theorem pic_sound (k : PicAnswers) : Sound {.kobject, .driver .pic} (picProbe k) picRemove := by
  refine sound_of_data rfl ?_
  by_cases hkmalloc : k.kmalloc < 0
  · rw [if_pos hkmalloc]
    exact Triple.ret (settles_data .pic)
  rw [if_neg hkmalloc]
  refine Triple.bind (triple_picSetUp k (by decide)) ?_
  rintro r own (hfail | ⟨hok, leds, hleds, hfree, rfl⟩)
  · exact Triple.ret (settles_setUp (.inl hfail))
  · exact Triple.ret (settles_setUp (.inr ⟨hok, triple_picRemove hleds hfree⟩))

/-! The head. -/

inductive HeadConfig where
  | lambdaK
  | lambdaT
  | thetaR
  | thetaT
  | eT
  deriving DecidableEq, Repr

def HeadConfig.all : List HeadConfig := [.lambdaK, .lambdaT, .thetaR, .thetaT, .eT]

/-- What `head_probe` is told; `headId` is what the read of `HEAD_REG_ID` returns. -/
structure HeadAnswers where
  enabled : Bool
  kzalloc : Int
  headId : Int
  write : HeadConfig → Int
  createGroup : Int
  createLink : Int

def headSetUp (k : HeadAnswers) : Call Int := do
  touch (.data .head)
  if k.headId < 0 then pure k.headId
  else if k.headId ≠ headMagicNumber then pure (-19)
  else
    match (HeadConfig.all.map k.write).find? (· < 0) with
    | some ret => pure ret
    | none => do
        let ret ← acquire (.group .head [] []) k.createGroup
        if ret < 0 then pure ret
        else do
          let ret ← acquire (.link .head) k.createLink
          if ret ≠ 0 then do
            release (.group .head [] [])
            pure ret
          else do
            let _ ← acquire (.notifier .head []) 0
            pure 0

def headProbe (k : HeadAnswers) : Call (Probed Unit) :=
  if k.enabled then do
    let ret ← acquire (.data .head) k.kzalloc
    if ret < 0 then pure ⟨-12, none, []⟩
    else do
      let ret ← headSetUp k
      pure ⟨ret, some (), [.data .head]⟩
  else pure ⟨0, none, []⟩

def headMakeSafe : Call Unit := touchAll [.data .head]

def headRemove : Option Unit → Call Unit
  | none => pure ()
  | some () => do
      headMakeSafe
      release (.notifier .head [])
      release (.link .head)
      release (.group .head [] [])
      pure ()

theorem triple_headSetUp (k : HeadAnswers) (hkobject : .kobject ∈ base) :
    Triple base {.data .head} (headSetUp k) fun ret own' =>
      (ret ≠ 0 ∧ own' = {.data .head}) ∨ (ret = 0 ∧ own' = published .head {.data .head}) := by
  have hdata : Resource.data .head ∈ base ∪ {.data .head} :=
    Finset.mem_union_right _ (Finset.mem_singleton_self _)
  unfold headSetUp
  refine .bind (triple_touch hdata) ?_
  rintro _ _ rfl
  by_cases hid : k.headId < 0
  · rw [if_pos hid]
    exact .ret (.inl ⟨hid.ne, rfl⟩)
  rw [if_neg hid]
  by_cases hmagic : k.headId ≠ headMagicNumber
  · rw [if_pos hmagic]
    exact .ret (.inl ⟨by decide, rfl⟩)
  rw [if_neg hmagic]
  cases hwrite : (HeadConfig.all.map k.write).find? (· < 0) with
  | some ret =>
      have hret : ret < 0 := by simpa using List.find?_some hwrite
      exact .ret (.inl ⟨hret.ne, rfl⟩)
  | none =>
      have hkinds := Kinds.singleton (r := .data .head) rfl
      refine triple_publish pure hkinds (by decide) (Finset.mem_singleton_self _) hkobject ?_ ?_
      · exact fun ret hret => .ret (.inl ⟨hret.ne, rfl⟩)
      · exact .ret (.inr ⟨rfl, rfl⟩)

theorem triple_headRemove : Triple base (published .head {.data .head}) (headRemove (some ()))
    fun _ own' => own' = {.data .head} := by
  refine .bind (triple_touchAll (by simp [published])) ?_
  rintro _ _ rfl
  exact triple_unpublish (Kinds.singleton (r := .data .head) rfl) (by decide) (.ret rfl)

theorem head_sound (k : HeadAnswers) :
    Sound {.kobject, .driver .head} (headProbe k) headRemove := by
  refine sound_of_data rfl ?_
  refine Triple.bind (triple_headSetUp k (by decide)) ?_
  rintro ret own (hfail | ⟨hok, rfl⟩)
  · exact Triple.ret (settles_setUp (.inl hfail))
  · exact Triple.ret (settles_setUp (.inr ⟨hok, triple_headRemove⟩))

end Glowforge.Platform
