import Mathlib.Data.Finset.Basic
import Mathlib.Data.Finset.Lattice.Lemmas
import Mathlib.Data.Finset.SDiff

/-! Routines that take things into custody and give them back, where a held thing may rely
on others. The triples below say what a routine owns before and after; what others hold
stays as it is, and no routine that has a triple releases what it does not hold or what is
still relied on. -/
namespace Glowforge.Foundation

variable {ρ : Type}

/-- While `extra` stays, `own` may go. -/
structure Free (needs : ρ → Finset ρ) (own extra : Finset ρ) : Prop where
  disjoint : Disjoint own extra
  needless : ∀ s ∈ extra, Disjoint (needs s) own

theorem Free.empty (needs : ρ → Finset ρ) (extra : Finset ρ) : Free needs ∅ extra :=
  ⟨Finset.disjoint_empty_left _, fun _ _ => Finset.disjoint_empty_right _⟩

theorem Free.mono {needs : ρ → Finset ρ} {own extra extra' : Finset ρ}
    (h : Free needs own extra')
    (hsub : extra ⊆ extra') : Free needs own extra :=
  ⟨Finset.disjoint_of_subset_right hsub h.disjoint, fun s hs => h.needless s (hsub hs)⟩

variable [DecidableEq ρ]

theorem Free.union {needs : ρ → Finset ρ} {own extra extra' : Finset ρ}
    (h : Free needs own extra) (h' : Free needs own extra') : Free needs own (extra ∪ extra') := by
  refine ⟨Finset.disjoint_union_right.mpr ⟨h.disjoint, h'.disjoint⟩, fun s hs => ?_⟩
  exact (Finset.mem_union.mp hs).elim (h.needless s) (h'.needless s)

/-- What is held; whatever a held thing relies on is held too. -/
@[ext] structure Custody (needs : ρ → Finset ρ) where
  held : Finset ρ
  closed : ∀ r ∈ held, needs r ⊆ held

namespace Custody

variable {needs : ρ → Finset ρ}

def add (c : Custody needs) (r : ρ) (h : needs r ⊆ c.held) : Custody needs where
  held := insert r c.held
  closed := by
    intro s hs
    rcases Finset.mem_insert.mp hs with rfl | hs
    · exact h.trans (Finset.subset_insert _ _)
    · exact (c.closed s hs).trans (Finset.subset_insert _ _)

def remove (c : Custody needs) (r : ρ) (h : ∀ s ∈ c.held, s ≠ r → r ∉ needs s) :
    Custody needs where
  held := c.held.erase r
  closed := by
    intro s hs t ht
    obtain ⟨hne, hheld⟩ := Finset.mem_erase.mp hs
    refine Finset.mem_erase.mpr ⟨?_, c.closed s hheld ht⟩
    rintro rfl
    exact h s hheld hne ht

end Custody

/-- A routine over what is held; `none` is a fault. -/
abbrev Routine (needs : ρ → Finset ρ) := StateT (Custody needs) Option

namespace Routine

variable {needs : ρ → Finset ρ} {α β : Type}

/-- Ask for `r`: refused while it is held already, or with the code `grant` where that is
negative. What `r` relies on has to be there. -/
def acquire (r : ρ) (grant : Int) : Routine needs Int := fun c =>
  if h : needs r ⊆ c.held then
    if r ∈ c.held then some (-16, c) else if grant < 0 then some (grant, c) else some (0, c.add r h)
  else none

/-- Give `r` back: it has to be held, and nothing held may rely on it. -/
def release (r : ρ) : Routine needs Unit := fun c =>
  if h : r ∈ c.held ∧ ∀ s ∈ c.held, s ≠ r → r ∉ needs s then some ((), c.remove r h.2) else none

def touch (r : ρ) : Routine needs Unit := fun c => if r ∈ c.held then some ((), c) else none

def ensure (r : ρ) (grant : Int) : Routine needs Int := fun c =>
  if r ∈ c.held then some (0, c) else acquire r grant c

def drop (r : ρ) : Routine needs Unit := fun c =>
  if r ∈ c.held then release r c else some ((), c)

/-- `own` is held on top of `base`, and nobody else relies on it. -/
structure Owns (base own : Finset ρ) (c : Custody needs) : Prop where
  mine : own ⊆ c.held
  lent : base ⊆ c.held \ own
  apart : ∀ s ∈ c.held, s ∉ own → Disjoint (needs s) own

/-- Where it owns `own`, the routine runs without a fault, and ends owning what `post`
says; what else is held stays. -/
def Triple (base own : Finset ρ) (m : Routine needs α) (post : α → Finset ρ → Prop) : Prop :=
  ∀ c : Custody needs, Owns base own c → ∃ a c' own', m.run c = some (a, c') ∧ post a own' ∧
    Owns base own' c' ∧ c'.held \ own' = c.held \ own

namespace Triple

variable {base own extra : Finset ρ} {m : Routine needs α} {post post' : α → Finset ρ → Prop}

theorem ret {a : α} (h : post a own) : Triple base own (pure a : Routine needs α) post :=
  fun c hc => ⟨a, c, own, rfl, h, hc, rfl⟩

theorem bind {f : α → Routine needs β} {after : β → Finset ρ → Prop} (hm : Triple base own m post)
    (hf : ∀ a own', post a own' → Triple base own' (f a) after) :
    Triple base own (m >>= f) after := by
  intro c hc
  obtain ⟨a, c₁, own₁, hrun, hpost, howns, hframe⟩ := hm c hc
  obtain ⟨b, c₂, own₂, hrun', hafter, howns', hframe'⟩ := hf a own₁ hpost c₁ howns
  refine ⟨b, c₂, own₂, ?_, hafter, howns', hframe'.trans hframe⟩
  rw [StateT.run_bind, hrun]
  exact hrun'

theorem mono (hm : Triple base own m post) (h : ∀ a own', post a own' → post' a own') :
    Triple base own m post' := by
  intro c hc
  obtain ⟨a, c', own', hrun, hpost, howns, hframe⟩ := hm c hc
  exact ⟨a, c', own', hrun, h a own' hpost, howns, hframe⟩

theorem widen {base' : Finset ρ} (hm : Triple base own m post) (hbase : base ⊆ base') :
    Triple base' own m post := by
  intro c hc
  obtain ⟨a, c', own', hrun, hpost, howns, hframe⟩ :=
    hm c ⟨hc.mine, hbase.trans hc.lent, hc.apart⟩
  refine ⟨a, c', own', hrun, hpost, ⟨howns.mine, ?_, howns.apart⟩, hframe⟩
  rw [hframe]
  exact hc.lent

/-- What a routine does not own, it leaves; it may use it meanwhile. -/
theorem frame (hm : Triple (base ∪ extra) own m post) (hfree : Free needs own extra) :
    Triple base (own ∪ extra) m fun a o =>
      ∃ own', post a own' ∧ Free needs own' extra ∧ o = own' ∪ extra := by
  intro c hc
  have hown : own ⊆ c.held := Finset.subset_union_left.trans hc.mine
  have hextra : extra ⊆ c.held := Finset.subset_union_right.trans hc.mine
  have hrest : c.held \ (own ∪ extra) ⊆ c.held \ own :=
    Finset.sdiff_subset_sdiff (Finset.Subset.refl _) Finset.subset_union_left
  have howns : Owns (base ∪ extra) own c := by
    refine ⟨hown, Finset.union_subset (hc.lent.trans hrest) ?_, ?_⟩
    · exact Finset.subset_sdiff.mpr ⟨hextra, hfree.disjoint.symm⟩
    · intro s hs hnot
      by_cases hin : s ∈ extra
      · exact hfree.needless s hin
      · have hout : s ∉ own ∪ extra := by simp [hnot, hin]
        exact (Finset.disjoint_union_right.mp (hc.apart s hs hout)).1
  obtain ⟨a, c', own', hrun, hpost, howns', hframe⟩ := hm c howns
  have hkept : base ∪ extra ⊆ c'.held \ own' := howns'.lent
  have hleft : extra ⊆ c'.held \ own' := Finset.subset_union_right.trans hkept
  have hfree' : Free needs own' extra := by
    refine ⟨(Finset.subset_sdiff.mp hleft).2.symm, fun s hs => ?_⟩
    obtain ⟨hheld, hnot⟩ := Finset.mem_sdiff.mp (hleft hs)
    exact howns'.apart s hheld hnot
  have hsame : c'.held \ (own' ∪ extra) = c.held \ (own ∪ extra) := by
    simp only [← Finset.sup_eq_union, ← sdiff_sdiff_left, hframe]
  refine ⟨a, c', own' ∪ extra, hrun, ⟨own', hpost, hfree', rfl⟩, ⟨?_, ?_, ?_⟩, hsame⟩
  · exact Finset.union_subset howns'.mine (hleft.trans Finset.sdiff_subset)
  · rw [hsame]
    exact hc.lent
  · intro s hs hnot
    have hout : s ∈ c.held \ (own ∪ extra) := by
      rw [← hsame]
      exact Finset.mem_sdiff.mpr ⟨hs, hnot⟩
    obtain ⟨hheld, hnotown⟩ := Finset.mem_sdiff.mp hout
    have hnot' : s ∉ own' := fun h => hnot (Finset.mem_union_left _ h)
    exact Finset.disjoint_union_right.mpr ⟨howns'.apart s hs hnot',
      (Finset.disjoint_union_right.mp (hc.apart s hheld hnotown)).2⟩

theorem beside (hm : Triple (base ∪ extra) ∅ m post) :
    Triple base extra m fun a o =>
      ∃ own', post a own' ∧ Free needs own' extra ∧ o = own' ∪ extra := by
  have hframe := hm.frame (Free.empty needs extra)
  rwa [Finset.empty_union] at hframe

theorem without (hm : Triple (base ∪ extra) own m post) (hempty : ∀ a o, post a o → o = ∅)
    (hfree : Free needs own extra) :
    Triple base (own ∪ extra) m fun a o => o = extra ∧ post a ∅ := by
  refine (hm.frame hfree).mono ?_
  rintro a o ⟨own', hpost, -, rfl⟩
  obtain rfl := hempty a own' hpost
  exact ⟨Finset.empty_union _, hpost⟩

end Triple

variable {base own : Finset ρ} {r p : ρ}

theorem triple_acquire (grant : Int) (hneeds : needs r ⊆ base ∪ own) :
    Triple base own (acquire r grant : Routine needs Int) fun a own' =>
      (a = 0 ∧ r ∉ base ∪ own ∧ own' = insert r own) ∨ (a < 0 ∧ own' = own) := by
  intro c hc
  have hbase : base ⊆ c.held := hc.lent.trans Finset.sdiff_subset
  have hheld : needs r ⊆ c.held := hneeds.trans (Finset.union_subset hbase hc.mine)
  by_cases hmem : r ∈ c.held
  · refine ⟨-16, c, own, ?_, .inr ⟨by decide, rfl⟩, hc, rfl⟩
    simp [acquire, StateT.run, hheld, hmem]
  · by_cases hgrant : grant < 0
    · refine ⟨grant, c, own, ?_, .inr ⟨hgrant, rfl⟩, hc, rfl⟩
      simp [acquire, StateT.run, hheld, hmem, hgrant]
    · have hnew : r ∉ base ∪ own := fun h =>
        hmem ((Finset.union_subset hbase hc.mine) h)
      have hsame : insert r c.held \ insert r own = c.held \ own := by
        rw [Finset.insert_sdiff_insert, Finset.sdiff_insert_of_notMem hmem]
      refine ⟨0, c.add r hheld, insert r own, ?_, .inl ⟨rfl, hnew, rfl⟩, ⟨?_, ?_, ?_⟩, hsame⟩
      · simp [acquire, StateT.run, hheld, hmem, hgrant]
      · exact Finset.insert_subset_insert r hc.mine
      · exact hsame ▸ hc.lent
      · intro s hs hnot
        obtain ⟨hne, hnot⟩ := not_or.mp (fun h => hnot (Finset.mem_insert.mpr h))
        have hs' : s ∈ c.held := (Finset.mem_insert.mp hs).resolve_left hne
        refine Finset.disjoint_insert_right.mpr ⟨?_, hc.apart s hs' hnot⟩
        exact fun hrel => hmem (c.closed s hs' hrel)

theorem triple_release (hmem : r ∈ own) (hfree : ∀ s ∈ own, s ≠ r → r ∉ needs s) :
    Triple base own (release r : Routine needs Unit) fun _ own' => own' = own.erase r := by
  intro c hc
  have hheld : r ∈ c.held := hc.mine hmem
  have hloose : ∀ s ∈ c.held, s ≠ r → r ∉ needs s := by
    intro s hs hne
    by_cases hin : s ∈ own
    · exact hfree s hin hne
    · exact fun hrel => Finset.disjoint_left.mp (hc.apart s hs hin) hrel hmem
  have hsame : c.held.erase r \ own.erase r = c.held \ own := by
    ext s
    simp only [Finset.mem_sdiff, Finset.mem_erase]
    constructor
    · rintro ⟨⟨hne, hs⟩, hnot⟩
      exact ⟨hs, fun h => hnot ⟨hne, h⟩⟩
    · rintro ⟨hs, hnot⟩
      have hne : s ≠ r := fun h => hnot (h ▸ hmem)
      exact ⟨⟨hne, hs⟩, fun h => hnot h.2⟩
  refine ⟨(), c.remove r hloose, own.erase r, ?_, rfl, ⟨?_, ?_, ?_⟩, hsame⟩
  · simp only [release, StateT.run]
    rw [dif_pos ⟨hheld, hloose⟩]
  · exact Finset.erase_subset_erase r hc.mine
  · exact hsame ▸ hc.lent
  · intro s hs hnot
    obtain ⟨hne, hs⟩ := Finset.mem_erase.mp hs
    have hnot' : s ∉ own := fun h => hnot (Finset.mem_erase.mpr ⟨hne, h⟩)
    exact Disjoint.mono_right (Finset.erase_subset r own) (hc.apart s hs hnot')

theorem triple_release_insert (hr : r ∉ own) (hneeds : ∀ s ∈ own, r ∉ needs s) :
    Triple base (insert r own) (release r : Routine needs Unit) fun _ own' => own' = own := by
  refine (triple_release (Finset.mem_insert_self r own) ?_).mono ?_
  · intro s hs hne
    exact hneeds s ((Finset.mem_insert.mp hs).resolve_left hne)
  · rintro _ own' rfl
    exact Finset.erase_insert hr

theorem triple_touch (hmem : r ∈ base ∪ own) :
    Triple base own (touch r : Routine needs Unit) fun _ own' => own' = own := by
  intro c hc
  have hbase : base ⊆ c.held := hc.lent.trans Finset.sdiff_subset
  have hheld : r ∈ c.held := Finset.union_subset hbase hc.mine hmem
  refine ⟨(), c, own, ?_, rfl, hc, rfl⟩
  simp [touch, StateT.run, hheld]

theorem Owns.notMem {c : Custody needs} (hc : Owns base own c) (hp : p ∈ own) (hrel : p ∈ needs r)
    (hnot : r ∉ own) : r ∉ c.held :=
  fun hs => Finset.disjoint_left.mp (hc.apart r hs hnot) hrel hp

theorem triple_acquire_granted (hneeds : needs r ⊆ base ∪ own) (hp : p ∈ own) (hrel : p ∈ needs r)
    (hnot : r ∉ own) :
    Triple base own (acquire r 0 : Routine needs Int) fun a own' =>
      a = 0 ∧ own' = insert r own := by
  intro c hc
  have hout := hc.notMem hp hrel hnot
  obtain ⟨a, c', own', hrun, hpost, howns, hframe⟩ := triple_acquire 0 hneeds c hc
  refine ⟨a, c', own', hrun, ?_, howns, hframe⟩
  rcases hpost with ⟨hok, -, heq⟩ | ⟨hfail, -⟩
  · exact ⟨hok, heq⟩
  · have hheld : needs r ⊆ c.held :=
      hneeds.trans (Finset.union_subset (hc.lent.trans Finset.sdiff_subset) hc.mine)
    have hgranted : (acquire r 0 : Routine needs Int).run c = some (0, c.add r hheld) := by
      simp [acquire, StateT.run, hheld, hout]
    rw [hgranted] at hrun
    obtain ⟨rfl, -⟩ := Prod.mk.inj (Option.some.inj hrun)
    exact absurd hfail (lt_irrefl _)

theorem triple_ensure (grant : Int) (hneeds : needs r ⊆ base ∪ own) (hp : p ∈ own)
    (hrel : p ∈ needs r) :
    Triple base own (ensure r grant : Routine needs Int) fun a own' =>
      (a = 0 ∧ own' = insert r own) ∨ (a < 0 ∧ own' = own) := by
  intro c hc
  by_cases hmem : r ∈ own
  · refine ⟨0, c, own, ?_, .inl ⟨rfl, (Finset.insert_eq_self.mpr hmem).symm⟩, hc, rfl⟩
    simp [ensure, StateT.run, hc.mine hmem]
  · have hout := hc.notMem hp hrel hmem
    obtain ⟨a, c', own', hrun, hpost, howns, hframe⟩ := triple_acquire grant hneeds c hc
    refine ⟨a, c', own', ?_, ?_, howns, hframe⟩
    · simp only [ensure, StateT.run, if_neg hout]
      exact hrun
    · rcases hpost with ⟨hok, -, heq⟩ | hfail
      · exact .inl ⟨hok, heq⟩
      · exact .inr hfail

theorem triple_drop (hp : p ∈ own) (hrel : p ∈ needs r) (hfree : ∀ s ∈ own, s ≠ r → r ∉ needs s) :
    Triple base own (drop r : Routine needs Unit) fun _ own' => own' = own.erase r := by
  intro c hc
  by_cases hmem : r ∈ own
  · obtain ⟨a, c', own', hrun, hpost, howns, hframe⟩ := triple_release hmem hfree c hc
    refine ⟨a, c', own', ?_, hpost, howns, hframe⟩
    simp only [drop, StateT.run, if_pos (hc.mine hmem)]
    exact hrun
  · have hout := hc.notMem hp hrel hmem
    refine ⟨(), c, own, ?_, (Finset.erase_eq_of_notMem hmem).symm, hc, rfl⟩
    simp [drop, StateT.run, hout]

theorem Triple.restores {m : Routine needs α} {post : α → Finset ρ → Prop}
    (h : Triple base ∅ m post) (hempty : ∀ a own', post a own' → own' = ∅) {c : Custody needs}
    (hbase : base ⊆ c.held) : ∃ a, m.run c = some (a, c) ∧ post a ∅ := by
  have howns : Owns base ∅ c := by
    refine ⟨Finset.empty_subset _, by simpa using hbase, ?_⟩
    intro s _ _
    exact Finset.disjoint_empty_right _
  obtain ⟨a, c', own', hrun, hpost, -, hframe⟩ := h c howns
  cases hempty a own' hpost
  have hsame : c' = c := by
    ext1
    simpa using hframe
  exact ⟨a, hsame ▸ hrun, hpost⟩

end Routine

end Glowforge.Foundation
