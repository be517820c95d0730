import Glowforge.Foundation.Custody
import Mathlib.Data.Finset.Image
import Mathlib.Data.List.Nodup
import Mathlib.Logic.Function.Basic

/-! What the kernel hands out to the drivers, and the driver core around a probe and a
removal. The kernel may refuse anything it is asked for. -/
namespace Glowforge.Platform
open Foundation Routine

inductive Client where
  | pic
  | head
  | thermal
  | cnc
  deriving DecidableEq, Repr

inductive LedClassdev where
  | lidLed
  | buttonLed1
  | buttonLed2
  | buttonLed3
  deriving DecidableEq, Repr

/-- What a driver asks the kernel for. A callback is named with the pins and channels that
its code drives. -/
inductive Resource where
  | kobject
  | driver (client : Client)
  | data (client : Client)
  | gpio (gpio : Int)
  | pwm (pwmdev : Nat)
  | pwmEnabled (pwmdev : Nat)
  | irq (irqNum gpio : Int)
  | group (client : Client) (gpios : List Int) (pwms : List Nat)
  | link (client : Client)
  | notifier (client : Client) (gpios : List Int)
  | timer (client : Client) (gpios : List Int)
  | ledTrigger
  | ledWq
  | led (led : LedClassdev)
  deriving DecidableEq, Repr

inductive Kind where
  | kobject
  | driver
  | data
  | gpio
  | pwm
  | pwmEnabled
  | irq
  | group
  | link
  | notifier
  | timer
  | ledTrigger
  | ledWq
  | led
  deriving DecidableEq, Repr

namespace Resource

def kind : Resource → Kind
  | kobject => .kobject
  | driver _ => .driver
  | data _ => .data
  | gpio _ => .gpio
  | pwm _ => .pwm
  | pwmEnabled _ => .pwmEnabled
  | irq _ _ => .irq
  | group _ _ _ => .group
  | link _ => .link
  | notifier _ _ => .notifier
  | timer _ _ => .timer
  | ledTrigger => .ledTrigger
  | ledWq => .ledWq
  | led _ => .led

/-- What must not go before the resource does. -/
def needs : Resource → Finset Resource
  | kobject | gpio _ | pwm _ | ledTrigger | ledWq => ∅
  | driver _ | link _ => {kobject}
  | data client => {driver client}
  | pwmEnabled pwmdev => {pwm pwmdev}
  | irq _ g => {data .thermal, gpio g}
  | group client gpios pwms => insert (data client) (gpios.map gpio ++ pwms.map pwm).toFinset
  | notifier client gpios | timer client gpios =>
      insert (data client) (gpios.map gpio).toFinset
  | led _ => {data .pic, ledWq}

end Resource

def Kind.needs : Kind → List Kind
  | kobject | gpio | pwm | ledTrigger | ledWq => []
  | driver | link => [kobject]
  | data => [driver]
  | pwmEnabled => [pwm]
  | irq | notifier | timer => [data, gpio]
  | group => [data, gpio, pwm]
  | led => [data, ledWq]

theorem Resource.kind_of_needs {r s : Resource} (h : s ∈ r.needs) : s.kind ∈ r.kind.needs := by
  cases r <;> simp only [needs, Finset.mem_insert, Finset.mem_singleton, List.mem_toFinset,
    List.mem_append, List.mem_map, Finset.notMem_empty] at h
  case driver | link => subst h; simp [kind, Kind.needs]
  case data | pwmEnabled => subst h; simp [kind, Kind.needs]
  case irq | led => rcases h with rfl | rfl <;> simp [kind, Kind.needs]
  case group =>
    rcases h with rfl | ⟨g, -, rfl⟩ | ⟨d, -, rfl⟩ <;> simp [kind, Kind.needs]
  case notifier | timer => rcases h with rfl | ⟨g, -, rfl⟩ <;> simp [kind, Kind.needs]

def Kind.leaf : Kind → Bool
  | irq | group | link | notifier | timer | led => true
  | _ => false

theorem Kind.leaf_of_mem_needs (l : Kind) : ∀ k ∈ l.needs, k.leaf = false := by
  cases l <;> decide

theorem Resource.unneeded {r : Resource} (h : r.kind.leaf = true) (s : Resource) : r ∉ s.needs := by
  intro hr
  have hneeded := s.kind.leaf_of_mem_needs _ (kind_of_needs hr)
  rw [h] at hneeded
  cases hneeded

theorem link_needs {base own : Finset Resource} (client : Client) (h : .kobject ∈ base) :
    Resource.needs (.link client) ⊆ base ∪ own :=
  Finset.singleton_subset_iff.mpr (Finset.mem_union_left _ h)

abbrev Call := Routine Resource.needs

def touchAll : List Resource → Call Unit
  | [] => pure ()
  | r :: rest => do
      touch r
      touchAll rest

theorem triple_touchAll {base own : Finset Resource} {rs : List Resource}
    (h : ∀ r ∈ rs, r ∈ base ∪ own) :
    Triple base own (touchAll rs) fun _ own' => own' = own := by
  induction rs with
  | nil => exact .ret rfl
  | cons r rest ih =>
      refine .bind (triple_touch (h r List.mem_cons_self)) ?_
      rintro _ own' rfl
      exact ih fun s hs => h s (List.mem_cons_of_mem _ hs)

/-- A callback finds what it uses for as long as it is registered. -/
theorem touchAll_run {r : Resource} {rs : List Resource} (hrs : ∀ s ∈ rs, s ∈ r.needs)
    {c : Custody Resource.needs} (hr : r ∈ c.held) : (touchAll rs).run c = some ((), c) := by
  have hbase : ∀ s ∈ rs, s ∈ c.held ∪ ∅ := fun s hs =>
    Finset.mem_union_left _ (c.closed r hr (hrs s hs))
  obtain ⟨_, hrun, -⟩ := (triple_touchAll hbase).restores (fun _ _ h => h) (Finset.Subset.refl _)
  exact hrun

def Kinds (ks : List Kind) (own : Finset Resource) : Prop := ∀ r ∈ own, r.kind ∈ ks

def Apart (ks ls : List Kind) : Prop := ∀ l ∈ ls, l ∉ ks ∧ ∀ k ∈ l.needs, k ∉ ks

instance (ks ls : List Kind) : Decidable (Apart ks ls) := inferInstanceAs (Decidable (∀ l ∈ ls, _))

theorem Kinds.notMem {own : Finset Resource} {ks : List Kind} {r : Resource} {k : Kind}
    (h : Kinds ks own) (hk : r.kind = k) (hnew : k ∉ ks) : r ∉ own :=
  fun hr => hnew (hk ▸ h r hr)

theorem Kinds.insert {own : Finset Resource} {ks : List Kind} {r : Resource} {k : Kind}
    (h : Kinds ks own) (hk : r.kind = k) : Kinds (k :: ks) (insert r own) := by
  intro s hs
  rcases Finset.mem_insert.mp hs with rfl | hs
  · exact hk ▸ List.mem_cons_self
  · exact List.mem_cons_of_mem _ (h s hs)

theorem Kinds.singleton {r : Resource} {k : Kind} (hk : r.kind = k) : Kinds [k] {r} := by
  intro s hs
  rw [Finset.mem_singleton.mp hs, hk]
  exact List.mem_singleton_self _

theorem Kinds.release {base own : Finset Resource} {ks : List Kind} {r : Resource} {k : Kind}
    (h : Kinds ks own) (hk : r.kind = k) (hnew : k ∉ ks) (hleaf : k.leaf = true) :
    Triple base (Insert.insert r own) (release r : Call Unit) fun _ own' => own' = own :=
  triple_release_insert (h.notMem hk hnew) fun s _ => Resource.unneeded (hk ▸ hleaf) s

theorem Kinds.union {own own' : Finset Resource} {ks ks' : List Kind} (h : Kinds ks own)
    (h' : Kinds ks' own') : Kinds (ks ++ ks') (own ∪ own') := by
  intro s hs
  refine List.mem_append.mpr ?_
  exact (Finset.mem_union.mp hs).imp (h s) (h' s)

theorem Kinds.free {ks ls : List Kind} {own extra : Finset Resource} (hown : Kinds ks own)
    (hextra : Kinds ls extra) (h : Apart ks ls) : Free Resource.needs own extra := by
  refine ⟨?_, fun s hs => ?_⟩
  · refine Finset.disjoint_left.mpr fun r hr hr' => ?_
    exact (h _ (hextra r hr')).1 (hown r hr)
  · refine Finset.disjoint_left.mpr fun r hr hr' => ?_
    exact (h _ (hextra s hs)).2 _ (Resource.kind_of_needs hr) (hown r hr')

/-! Slots that number what a driver holds; a negative number is none. -/

section Slots

variable {ι : Type} (res : ι → Int → Resource)

def slots (nums : ι → Int) (is : List ι) : List Resource :=
  (is.filter fun i => nums i ≥ 0).map fun i => res i (nums i)

theorem slots_append (nums : ι → Int) (done rest : List ι) :
    slots res nums (done ++ rest) = slots res nums done ++ slots res nums rest := by
  simp [slots]

theorem slots_cons {nums : ι → Int} {i : ι} {rest : List ι} (h : 0 ≤ nums i) :
    slots res nums (i :: rest) = res i (nums i) :: slots res nums rest := by
  rw [slots, List.filter_cons_of_pos (by simpa using h), List.map_cons]
  rfl

theorem slots_cons_none {nums : ι → Int} {i : ι} {rest : List ι} (h : ¬0 ≤ nums i) :
    slots res nums (i :: rest) = slots res nums rest := by
  rw [slots, List.filter_cons_of_neg (by simpa using h)]
  rfl

theorem slots_congr {nums nums' : ι → Int} {is : List ι} (h : ∀ i ∈ is, nums i = nums' i) :
    slots res nums is = slots res nums' is := by
  induction is with
  | nil => rfl
  | cons i rest ih =>
      have hi := h i List.mem_cons_self
      have hrest := ih fun j hj => h j (List.mem_cons_of_mem _ hj)
      by_cases hpos : 0 ≤ nums i
      · rw [slots_cons res hpos, slots_cons res (hi ▸ hpos), hi, hrest]
      · rw [slots_cons_none res hpos, slots_cons_none res (hi ▸ hpos), hrest]

theorem mem_slots {nums : ι → Int} {is : List ι} {i : ι} (hi : i ∈ is) (h : 0 ≤ nums i) :
    res i (nums i) ∈ slots res nums is :=
  List.mem_map.mpr ⟨i, List.mem_filter.mpr ⟨hi, by simpa using h⟩, rfl⟩

theorem exists_of_mem_slots {nums : ι → Int} {is : List ι} {r : Resource}
    (h : r ∈ slots res nums is) : ∃ i ∈ is, r = res i (nums i) := by
  obtain ⟨i, hi, rfl⟩ := List.mem_map.mp h
  exact ⟨i, (List.mem_filter.mp hi).1, rfl⟩

theorem notMem_of_nodup_append_cons {done rest : List ι} {i : ι} (h : (done ++ i :: rest).Nodup) :
    i ∉ done ∧ i ∉ rest := by
  obtain ⟨-, hcons, hdisjoint⟩ := List.nodup_append.mp h
  refine ⟨fun hmem => ?_, (List.nodup_cons.mp hcons).1⟩
  exact hdisjoint i hmem i List.mem_cons_self rfl

theorem slots_of_neg {nums : ι → Int} {is : List ι} (h : ∀ i ∈ is, nums i < 0) :
    slots res nums is = [] := by
  rw [slots, List.filter_eq_nil_iff.mpr fun i hi => by simpa using h i hi]
  rfl

theorem kinds_slots {k : Kind} (hkind : ∀ i n, (res i n).kind = k) (nums : ι → Int)
    (is : List ι) : Kinds [k] (slots res nums is).toFinset := by
  intro r hr
  obtain ⟨i, -, rfl⟩ := exists_of_mem_slots res (List.mem_toFinset.mp hr)
  exact List.mem_singleton.mpr (hkind i _)

variable [DecidableEq ι]

def releaseSlots : List ι → (ι → Int) → Call (ι → Int)
  | [], nums => pure nums
  | i :: rest, nums =>
      if nums i ≥ 0 then do
        release (res i (nums i))
        releaseSlots rest (Function.update nums i (-1))
      else releaseSlots rest nums

theorem slots_update {nums : ι → Int} {i : ι} {rest : List ι} (h : i ∉ rest) (n : Int) :
    slots res (Function.update nums i n) rest = slots res nums rest := by
  apply slots_congr
  intro j hj
  have hne : j ≠ i := by
    rintro rfl
    exact h hj
  exact Function.update_of_ne hne _ _

variable {res}

theorem slots_granted {nums : ι → Int} {done : List ι} {i : ι} {n : Int} (hi : i ∉ done)
    (hn : 0 ≤ n) :
    slots res (Function.update nums i n) (done ++ [i]) = slots res nums done ++ [res i n] := by
  rw [slots_append, slots_update res hi, slots_cons res (by rwa [Function.update_self]),
    Function.update_self]
  rfl

theorem slots_refused {nums : ι → Int} {done : List ι} {i : ι} (hi : i ∉ done) :
    slots res (Function.update nums i (-1)) (done ++ [i]) = slots res nums done := by
  rw [slots_append, slots_update res hi,
    slots_cons_none res (by rw [Function.update_self]; decide)]
  exact List.append_nil _

theorem triple_releaseSlots {base : Finset Resource} {is : List ι} {nums : ι → Int}
    (hleaf : ∀ i n j m, res i n ∉ (res j m).needs) (his : is.Nodup)
    (hdistinct : (slots res nums is).Nodup) :
    Triple base (slots res nums is).toFinset (releaseSlots res is nums)
      fun nums' own' => own' = ∅ ∧ ∀ i ∈ is, nums' i < 0 := by
  -- induction on the slots; the marks already set stay set
  suffices hkeeps : Triple base (slots res nums is).toFinset (releaseSlots res is nums)
      fun nums' own' => own' = ∅ ∧ (∀ i ∈ is, nums' i < 0) ∧ ∀ i, i ∉ is → nums' i = nums i from
    hkeeps.mono fun _ _ h => ⟨h.1, h.2.1⟩
  induction is generalizing nums with
  | nil => exact .ret ⟨rfl, by simp, fun _ _ => rfl⟩
  | cons i rest ih =>
      obtain ⟨hi, hrest⟩ := List.nodup_cons.mp his
      by_cases hpos : 0 ≤ nums i
      · rw [slots_cons res hpos] at hdistinct ⊢
        obtain ⟨hnew, hdistinct⟩ := List.nodup_cons.mp hdistinct
        rw [releaseSlots, if_pos hpos]
        refine .bind (triple_release (by simp) ?_) ?_
        · intro s hs _
          rcases List.mem_cons.mp (List.mem_toFinset.mp hs) with rfl | hs
          · exact hleaf _ _ _ _
          · obtain ⟨j, -, rfl⟩ := exists_of_mem_slots res hs
            exact hleaf _ _ _ _
        · rintro _ own' rfl
          have hown : (res i (nums i) :: slots res nums rest).toFinset.erase (res i (nums i)) =
              (slots res (Function.update nums i (-1)) rest).toFinset := by
            rw [slots_update res hi, List.toFinset_cons, Finset.erase_insert (by simpa using hnew)]
          rw [hown]
          apply (ih hrest (by rwa [slots_update res hi])).mono
          rintro nums' own' ⟨hempty, hfreed, hkept⟩
          refine ⟨hempty, ?_, ?_⟩
          · intro j hj
            rcases List.mem_cons.mp hj with rfl | hj
            · rw [hkept j hi, Function.update_self]
              decide
            · exact hfreed j hj
          · intro j hj
            obtain ⟨hne, hj⟩ := not_or.mp fun h => hj (List.mem_cons.mpr h)
            rw [hkept j hj, Function.update_of_ne hne]
      · rw [slots_cons_none res hpos] at hdistinct ⊢
        rw [releaseSlots, if_neg hpos]
        apply (ih hrest hdistinct).mono
        rintro nums' own' ⟨hempty, hfreed, hkept⟩
        refine ⟨hempty, ?_, ?_⟩
        · intro j hj
          rcases List.mem_cons.mp hj with rfl | hj
          · rw [hkept j hi]
            exact not_le.mp hpos
          · exact hfreed j hj
        · intro j hj
          exact hkept j fun h => hj (List.mem_cons_of_mem _ h)

theorem triple_grant {base : Finset Resource} {done : List ι} {nums : ι → Int} {i : ι} {n : Int}
    (grant : Int) (hi : i ∉ done) (hn : 0 ≤ n) (hdistinct : (slots res nums done).Nodup)
    (hneeds : (res i n).needs ⊆ base) :
    Triple base (slots res nums done).toFinset (acquire (res i n) grant : Call Int) fun a own' =>
      (a = 0 ∧ own' = (slots res (Function.update nums i n) (done ++ [i])).toFinset ∧
        (slots res (Function.update nums i n) (done ++ [i])).Nodup) ∨
      (a < 0 ∧ own' = (slots res nums done).toFinset) := by
  refine (triple_acquire grant (hneeds.trans Finset.subset_union_left)).mono ?_
  rintro a own' (⟨ha, hnew, rfl⟩ | hrefused)
  · have hnot : res i n ∉ slots res nums done := fun h =>
      hnew (Finset.mem_union_right _ (List.mem_toFinset.mpr h))
    rw [slots_granted hi hn]
    refine .inl ⟨ha, ?_, ?_⟩
    · ext r
      simp
    · refine List.nodup_append.mpr ⟨hdistinct, List.nodup_singleton _, ?_⟩
      rintro r hr _ hr' rfl
      exact hnot (List.mem_singleton.mp hr' ▸ hr)
  · exact .inr hrefused

end Slots

/-! The driver core. -/

section Core

variable {σ : Type}

/-- What a probe returns, what it set as driver data, and what goes by itself after a probe
that failed and after a removal, the latest first. -/
structure Probed (σ : Type) where
  ret : Int
  drvdata : Option σ
  devres : List Resource

def devresReleaseAll : List Resource → Call Unit
  | [] => pure ()
  | r :: rest => do
      release r
      devresReleaseAll rest

def bindDevice (probe : Call (Probed σ)) : Call (Option (Probed σ)) := do
  let p ← probe
  if p.ret = 0 then pure (some p)
  else do
    devresReleaseAll p.devres
    pure none

def unbindDevice (remove : Option σ → Call Unit) : Option (Probed σ) → Call Unit
  | none => pure ()
  | some p => do
      remove p.drvdata
      devresReleaseAll p.devres

/-- What is owned goes with the routine. -/
def Settles (base own : Finset Resource) (m : Call Unit) : Prop :=
  Triple base own m fun _ own' => own' = ∅

/-- A probe that fails leaves what goes by itself, and one that succeeds what the removal
and the driver core give back. -/
def Sound (base : Finset Resource) (probe : Call (Probed σ)) (remove : Option σ → Call Unit) :
    Prop :=
  Triple base ∅ probe fun p own' =>
    if p.ret = 0 then Settles base own' (unbindDevice remove (some p))
    else Settles base own' (devresReleaseAll p.devres)

theorem Sound.bind {base : Finset Resource} {probe : Call (Probed σ)}
    {remove : Option σ → Call Unit} (h : Sound base probe remove) :
    Triple base ∅ (bindDevice probe) fun bound own' =>
      Settles base own' (unbindDevice remove bound) := by
  refine Triple.bind h ?_
  intro p own' hp
  by_cases hret : p.ret = 0
  · rw [if_pos hret] at hp ⊢
    exact .ret hp
  · rw [if_neg hret] at hp ⊢
    refine .bind hp ?_
    rintro _ _ rfl
    exact .ret (.ret rfl)

theorem settles_cons {base own : Finset Resource} {r : Resource} {rest : List Resource}
    (hr : r ∉ own) (hneeds : ∀ s ∈ own, r ∉ s.needs)
    (h : Settles base own (devresReleaseAll rest)) :
    Settles base (insert r own) (devresReleaseAll (r :: rest)) := by
  refine Triple.bind (triple_release_insert hr hneeds) ?_
  rintro _ own' rfl
  exact h

section DriverData

variable {base own : Finset Resource} {client : Client} {remove : Option σ → Call Unit}

theorem settles_data (client : Client) :
    Settles base {.data client} (devresReleaseAll [.data client]) :=
  settles_cons (Finset.notMem_empty _) (by simp) (Triple.ret rfl)

/-- A probe takes the driver data first; without them, or disabled, it takes nothing. -/
theorem sound_of_data {enabled : Bool} {kzalloc : Int} {probe : Call (Probed σ)}
    (hremove : remove none = pure ())
    (hprobe : Triple {.kobject, .driver client} {.data client} probe fun p own' =>
      if p.ret = 0 then Settles {.kobject, .driver client} own' (unbindDevice remove (some p))
      else Settles {.kobject, .driver client} own' (devresReleaseAll p.devres)) :
    Sound {.kobject, .driver client}
      (if enabled then do
        let ret ← acquire (.data client) kzalloc
        if ret < 0 then pure ⟨-12, none, []⟩
        else probe
      else pure ⟨0, none, []⟩) remove := by
  by_cases henabled : enabled
  swap
  · rw [if_neg henabled]
    refine Triple.ret (Triple.bind ?_ fun _ _ h => Triple.ret h)
    rw [hremove]
    exact Triple.ret rfl
  rw [if_pos henabled]
  have hneeds : Resource.needs (.data client) ⊆ {.kobject, .driver client} ∪ ∅ := by
    cases client <;> decide
  refine Triple.bind (triple_acquire _ hneeds) ?_
  rintro ret own (⟨rfl, -, rfl⟩ | ⟨hfail, rfl⟩)
  · rw [if_neg (lt_irrefl 0)]
    exact hprobe
  · rw [if_pos hfail]
    exact Triple.ret (Triple.ret rfl)

theorem settles_setUp {ret : Int} {drvdata : σ}
    (h : (ret ≠ 0 ∧ own = {.data client}) ∨
      (ret = 0 ∧ Triple base own (remove (some drvdata)) fun _ own' => own' = {.data client})) :
    if ret = 0 then
      Settles base own (unbindDevice remove (some ⟨ret, some drvdata, [.data client]⟩))
    else Settles base own (devresReleaseAll [.data client]) := by
  rcases h with ⟨hfail, rfl⟩ | ⟨hok, hremove⟩
  · rw [if_neg hfail]
    exact settles_data client
  · rw [if_pos hok]
    refine Triple.bind hremove ?_
    rintro _ _ rfl
    exact settles_data client

end DriverData

end Core

/-! The attributes, the link and the notifier of a driver without pins. -/

section Publishing

variable {α : Type} {base rest : Finset Resource} {post : α → Finset Resource → Prop}

def published (client : Client) (rest : Finset Resource) : Finset Resource :=
  insert (.notifier client []) (insert (.link client) (insert (.group client [] []) rest))

def Quiet (ks : List Kind) : Prop := .group ∉ ks ∧ .link ∉ ks ∧ .notifier ∉ ks

instance (ks : List Kind) : Decidable (Quiet ks) := inferInstanceAs (Decidable (_ ∧ _))

theorem triple_publish {client : Client} {ks : List Kind} {createGroup createLink : Int}
    (fail : Int → Call α) {done : Call α} (hkinds : Kinds ks rest) (hquiet : Quiet ks)
    (hdata : .data client ∈ rest) (hkobject : .kobject ∈ base)
    (hfail : ∀ ret < 0, Triple base rest (fail ret) post)
    (hdone : Triple base (published client rest) done post) :
    Triple base rest (do
      let ret ← acquire (.group client [] []) createGroup
      if ret < 0 then fail ret
      else do
        let ret ← acquire (.link client) createLink
        if ret ≠ 0 then do
          release (.group client [] [])
          fail ret
        else do
          let _ ← acquire (.notifier client []) 0
          done) post := by
  obtain ⟨hgroup, hlink, hnotifier⟩ := hquiet
  refine .bind (triple_acquire _ ?_) ?_
  · exact Finset.insert_subset (Finset.mem_union_right _ hdata) (by simp)
  rintro ret own (⟨rfl, -, rfl⟩ | ⟨hret, rfl⟩)
  swap
  · rw [if_pos hret]
    exact hfail ret hret
  rw [if_neg (lt_irrefl 0)]
  refine .bind (triple_acquire _ (link_needs _ hkobject)) ?_
  rintro ret own (⟨rfl, -, rfl⟩ | ⟨hret, rfl⟩)
  swap
  · rw [if_pos hret.ne]
    refine .bind (hkinds.release (k := .group) rfl hgroup rfl) ?_
    rintro _ _ rfl
    exact hfail ret hret
  rw [if_neg (not_not.mpr rfl)]
  have hdata' : .data client ∈ insert (.link client) (insert (.group client [] []) rest) :=
    Finset.mem_insert_of_mem (Finset.mem_insert_of_mem hdata)
  have hbelow := (hkinds.insert (r := .group client [] []) rfl).insert (r := .link client) rfl
  refine .bind (triple_acquire_granted ?_ hdata' (Finset.mem_insert_self _ _) ?_) ?_
  · exact Finset.insert_subset (Finset.mem_union_right _ hdata') (by simp)
  · exact hbelow.notMem (k := .notifier) rfl (by simpa [Resource.kind] using hnotifier)
  · rintro _ _ ⟨-, rfl⟩
    exact hdone

theorem triple_unpublish {client : Client} {ks : List Kind} {done : Call α}
    (hkinds : Kinds ks rest) (hquiet : Quiet ks) (hdone : Triple base rest done post) :
    Triple base (published client rest) (do
      release (.notifier client [])
      release (.link client)
      release (.group client [] [])
      done) post := by
  obtain ⟨hgroup, hlink, hnotifier⟩ := hquiet
  have hone := hkinds.insert (r := .group client [] []) rfl
  have htwo := hone.insert (r := .link client) rfl
  refine .bind (htwo.release (k := .notifier) rfl (by simpa [Resource.kind] using hnotifier) rfl) ?_
  rintro _ _ rfl
  refine .bind (hone.release (k := .link) rfl (by simpa [Resource.kind] using hlink) rfl) ?_
  rintro _ _ rfl
  refine .bind (hkinds.release (k := .group) rfl hgroup rfl) ?_
  rintro _ _ rfl
  exact hdone

end Publishing

end Glowforge.Platform
