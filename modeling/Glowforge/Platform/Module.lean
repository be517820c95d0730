import Glowforge.Platform.Pic
import Glowforge.Platform.Thermal

/-! `glowforge.c`: the module is loaded and unloaded. The drivers register in turn, each of
them binding its device if there is one; a driver that cannot register takes the earlier ones
away again. The stepper driver is registered here and binds no device. -/
namespace Glowforge.Platform
open Foundation Routine

section Register

variable {σ : Type}

/-- Registering a driver binds its device; a probe that fails does not fail the driver. -/
def registerDriver (client : Client) (grant : Int) (device : Option (Call (Probed σ))) :
    Call (Int × Option (Probed σ)) := do
  let ret ← acquire (.driver client) grant
  if ret < 0 then pure (ret, none)
  else
    match device with
    | none => pure (0, none)
    | some probe => do
        let bound ← bindDevice probe
        pure (0, bound)

def unregisterDriver (client : Client) (remove : Option σ → Call Unit)
    (bound : Option (Probed σ)) : Call Unit := do
  unbindDevice remove bound
  release (.driver client)

end Register

/-- What `glowforge_init` is told; a device that the device tree does not have is `none`. -/
structure ModuleAnswers where
  kobjectCreate : Int
  register : Client → Int
  pic : Option PicAnswers
  head : Option HeadAnswers
  thermal : Option ThermalAnswers

structure Loaded where
  pic : Option (Probed (LedClassdev → Int))
  head : Option (Probed Unit)
  thermal : Option (Probed Thermal)

/-! The labels of `glowforge_init`, from the bottom up. -/

def failedPicInit : Call Unit := release .kobject

def failedHeadInit (m : Loaded) : Call Unit := do
  unregisterDriver .pic picRemove m.pic
  failedPicInit

def failedThermalInit (m : Loaded) : Call Unit := do
  unregisterDriver .head headRemove m.head
  failedHeadInit m

def failedCncInit (m : Loaded) : Call Unit := do
  unregisterDriver .thermal thermalRemove m.thermal
  failedThermalInit m

def glowforgeInit (k : ModuleAnswers) : Call (Int × Loaded) := do
  let ret ← acquire .kobject k.kobjectCreate
  if ret < 0 then pure (-12, ⟨none, none, none⟩)
  else do
    let p ← registerDriver .pic (k.register .pic) (k.pic.map picProbe)
    if p.1 < 0 then do
      failedPicInit
      pure (p.1, ⟨none, none, none⟩)
    else do
      let h ← registerDriver .head (k.register .head) (k.head.map headProbe)
      if h.1 < 0 then do
        failedHeadInit ⟨p.2, none, none⟩
        pure (h.1, ⟨none, none, none⟩)
      else do
        let t ← registerDriver .thermal (k.register .thermal) (k.thermal.map thermalProbe)
        if t.1 < 0 then do
          failedThermalInit ⟨p.2, h.2, none⟩
          pure (t.1, ⟨none, none, none⟩)
        else do
          let status ← acquire (.driver .cnc) (k.register .cnc)
          if status < 0 then do
            failedCncInit ⟨p.2, h.2, t.2⟩
            pure (status, ⟨none, none, none⟩)
          else pure (0, ⟨p.2, h.2, t.2⟩)

def glowforgeExit (m : Loaded) : Call Unit := do
  release (.driver .cnc)
  unregisterDriver .thermal thermalRemove m.thermal
  unregisterDriver .head headRemove m.head
  unregisterDriver .pic picRemove m.pic
  release .kobject

section

variable {σ : Type} {base own extra : Finset Resource}

theorem Settles.widen {base' : Finset Resource} {m : Call Unit} (h : Settles base own m)
    (hsub : base ⊆ base') : Settles base' own m := Triple.widen h hsub

theorem Settles.stack {m below : Call Unit} (h : Settles (base ∪ extra) own m)
    (hfree : Free Resource.needs own extra) (hbelow : Settles base extra below) :
    Settles base (own ∪ extra) (m >>= fun _ => below) := by
  refine Triple.bind (Triple.without h (fun _ _ h => h) hfree) ?_
  rintro _ _ ⟨rfl, -⟩
  exact hbelow

theorem sound_of_map {α : Type} {probe : α → Call (Probed σ)} {remove : Option σ → Call Unit}
    (h : ∀ answers, Sound base (probe answers) remove) (device : Option α) :
    ∀ bind ∈ device.map probe, Sound base bind remove := by
  intro bind hbind
  obtain ⟨answers, -, rfl⟩ := Option.mem_map.mp hbind
  exact h answers

theorem triple_registerDriver {client : Client} {remove : Option σ → Call Unit} (grant : Int)
    {device : Option (Call (Probed σ))}
    (hdevice : ∀ probe ∈ device, Sound {.kobject, .driver client} probe remove)
    (hkobject : .kobject ∈ base) :
    Triple base ∅ (registerDriver client grant device) fun r own' =>
      (r.1 < 0 ∧ own' = ∅) ∨
        (r.1 = 0 ∧ Settles base own' (unregisterDriver client remove r.2)) := by
  have hneeds : Resource.needs (.driver client) ⊆ base ∪ ∅ :=
    Finset.singleton_subset_iff.mpr (Finset.mem_union_left _ hkobject)
  unfold registerDriver
  refine .bind (triple_acquire _ hneeds) ?_
  rintro ret own (⟨rfl, -, rfl⟩ | ⟨hret, rfl⟩)
  swap
  · rw [if_pos hret]
    exact .ret (.inl ⟨hret, rfl⟩)
  rw [if_neg (lt_irrefl 0)]
  have hdriver : Settles base (insert (.driver client) ∅) (release (.driver client)) :=
    triple_release_insert (Finset.notMem_empty _) (by simp)
  cases device with
  | none => exact .ret (.inr ⟨rfl, hdriver⟩)
  | some probe =>
      have hsub : {.kobject, .driver client} ⊆ base ∪ insert (.driver client) ∅ := by
        refine Finset.insert_subset (Finset.mem_union_left _ hkobject) ?_
        exact Finset.subset_union_right
      refine .bind ((hdevice probe rfl).bind.widen hsub).beside ?_
      rintro bound own ⟨own', hbound, hfree, rfl⟩
      exact .ret (.inr ⟨rfl, (hbound.widen hsub).stack hfree hdriver⟩)

theorem Settles.run {m : Call Unit} {c c' : Custody Resource.needs} (h : Settles base own m)
    (howns : Owns base own c') (hsame : c'.held \ own = c.held) : m.run c' = some ((), c) := by
  obtain ⟨_, c'', _, hrun, rfl, -, hframe⟩ := h c' howns
  have heq : c'' = c := by
    ext1
    simpa [hsame] using hframe
  exact heq ▸ hrun

end

theorem triple_glowforgeInit (k : ModuleAnswers) :
    Triple ∅ ∅ (glowforgeInit k) fun r own' =>
      (r.1 < 0 ∧ own' = ∅) ∨ (r.1 = 0 ∧ Settles ∅ own' (glowforgeExit r.2)) := by
  -- a label takes away what is there when it is reached
  have hlabel : ∀ {own : Finset Resource} {m : Call Unit} {status : Int} {loaded : Loaded},
      status < 0 → Settles ∅ own m →
      Triple ∅ own (m >>= fun _ => pure (status, loaded)) fun r own' =>
        (r.1 < 0 ∧ own' = ∅) ∨ (r.1 = 0 ∧ Settles ∅ own' (glowforgeExit r.2)) := by
    intro own m status loaded hstatus hm
    refine Triple.bind hm ?_
    rintro _ _ rfl
    exact .ret (.inl ⟨hstatus, rfl⟩)
  unfold glowforgeInit
  refine .bind (triple_acquire _ (Finset.empty_subset _)) ?_
  rintro ret kobject (⟨rfl, -, hown⟩ | ⟨hret, rfl⟩)
  swap
  · rw [if_pos hret]
    exact .ret (.inl ⟨by decide, rfl⟩)
  rw [if_neg (lt_irrefl 0)]
  have hkobject : Settles ∅ kobject failedPicInit := by
    rw [hown]
    exact triple_release_insert (Finset.notMem_empty _) (by simp)
  have hmem : .kobject ∈ kobject := hown ▸ Finset.mem_insert_self _ _
  refine .bind (triple_registerDriver _ (sound_of_map pic_sound k.pic)
    (Finset.mem_union_right ∅ hmem)).beside ?_
  rintro p own ⟨pic, hp, hfree, rfl⟩
  rcases hp with ⟨hfail, rfl⟩ | ⟨hok, hp⟩
  · rw [if_pos hfail, Finset.empty_union]
    exact hlabel hfail hkobject
  rw [if_neg (not_lt.mpr hok.ge)]
  have hheadInit : ∀ h t, Settles ∅ (pic ∪ kobject) (failedHeadInit ⟨p.2, h, t⟩) := fun _ _ =>
    hp.stack hfree hkobject
  have hmem := Finset.mem_union_right pic hmem
  refine .bind (triple_registerDriver _ (sound_of_map head_sound k.head)
    (Finset.mem_union_right ∅ hmem)).beside ?_
  rintro h own ⟨head, hh, hfree, rfl⟩
  rcases hh with ⟨hfail, rfl⟩ | ⟨hok, hh⟩
  · rw [if_pos hfail, Finset.empty_union]
    exact hlabel hfail (hheadInit _ _)
  rw [if_neg (not_lt.mpr hok.ge)]
  have hthermalInit : ∀ t, Settles ∅ (head ∪ (pic ∪ kobject)) (failedThermalInit ⟨p.2, h.2, t⟩) :=
    fun _ => hh.stack hfree (hheadInit _ _)
  have hmem := Finset.mem_union_right head hmem
  refine .bind (triple_registerDriver _ (sound_of_map thermal_sound k.thermal)
    (Finset.mem_union_right ∅ hmem)).beside ?_
  rintro t own ⟨thermal, ht, hfree, rfl⟩
  rcases ht with ⟨hfail, rfl⟩ | ⟨hok, ht⟩
  · rw [if_pos hfail, Finset.empty_union]
    exact hlabel hfail (hthermalInit _)
  rw [if_neg (not_lt.mpr hok.ge)]
  have hcncInit : Settles ∅ (thermal ∪ (head ∪ (pic ∪ kobject))) (failedCncInit ⟨p.2, h.2, t.2⟩) :=
    ht.stack hfree (hthermalInit _)
  have hmem := Finset.mem_union_right thermal hmem
  have hneeds : Resource.needs (.driver .cnc) ⊆
      ∅ ∪ (thermal ∪ (head ∪ (pic ∪ kobject))) ∪ ∅ :=
    Finset.singleton_subset_iff.mpr (Finset.mem_union_left ∅ (Finset.mem_union_right ∅ hmem))
  refine .bind (triple_acquire _ hneeds).beside ?_
  rintro status own ⟨cnc, ⟨rfl, -, rfl⟩ | ⟨hfail, rfl⟩, hfree, rfl⟩
  · rw [if_neg (lt_irrefl 0)]
    refine .ret (.inr ⟨rfl, ?_⟩)
    have hcnc : Settles (∅ ∪ (thermal ∪ (head ∪ (pic ∪ kobject)))) (insert (.driver .cnc) ∅)
        (release (.driver .cnc)) :=
      triple_release_insert (Finset.notMem_empty _) (by simp)
    exact hcnc.stack hfree hcncInit
  · rw [if_pos hfail, Finset.empty_union]
    exact hlabel hfail hcncInit

/-- Whatever the kernel answers, loading the module either fails and leaves what is held as it
was, or succeeds, and then unloading it gives back exactly what was taken; nothing is given back
twice, or while a callback or a device still relies on it. -/
theorem glowforge_restores (k : ModuleAnswers) (c : Custody Resource.needs) :
    ∃ r c', (glowforgeInit k).run c = some (r, c') ∧
      ((r.1 < 0 ∧ c' = c) ∨ (r.1 = 0 ∧ (glowforgeExit r.2).run c' = some ((), c))) := by
  have hempty : Owns ∅ ∅ c :=
    ⟨Finset.empty_subset _, Finset.empty_subset _, fun _ _ _ => Finset.disjoint_empty_right _⟩
  obtain ⟨r, c', own, hrun, hpost, howns, hframe⟩ := triple_glowforgeInit k c hempty
  rw [Finset.sdiff_empty] at hframe
  refine ⟨r, c', hrun, ?_⟩
  rcases hpost with ⟨hfail, rfl⟩ | ⟨hok, hsettles⟩
  · refine .inl ⟨hfail, ?_⟩
    ext1
    rwa [Finset.sdiff_empty] at hframe
  · exact .inr ⟨hok, hsettles.run howns hframe⟩

end Glowforge.Platform
