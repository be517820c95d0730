import Mathlib.Algebra.GroupWithZero.Nat
import Mathlib.Data.List.Basic

/-! Labelled systems: a partial step function from states and actions to output and
next state. An invariant is shown for one step and holds along every execution; a
guard restricts the executions to those that take each action where it allows. -/
namespace Glowforge.Foundation.System

variable {σ α ε : Type*} (step : σ → α → Option (List ε × σ))

/-- Take the actions in order, collecting the output. -/
def execute : List α → σ → Option (List ε × σ)
  | [], s => some ([], s)
  | a :: as, s => (step s a).bind fun r => (execute as r.2).map fun q => (r.1 ++ q.1, q.2)

def Reachable (s₀ s : σ) : Prop :=
  ∃ as out, execute step as s₀ = some (out, s)

/-- Each of the actions is taken in a state in which the guard allows it. -/
def Along (guard : σ → α → Prop) : List α → σ → Prop
  | [], _ => True
  | a :: as, s => guard s a ∧ ∀ r, step s a = some r → Along guard as r.2

variable {step}

theorem execute_cons {a : α} {as : List α} {s : σ} {r : List ε × σ}
    (h : execute step (a :: as) s = some r) :
    ∃ r₁ r₂, step s a = some r₁ ∧ execute step as r₁.2 = some r₂ ∧ r = (r₁.1 ++ r₂.1, r₂.2) := by
  unfold execute at h
  obtain ⟨r₁, hstep, hrest⟩ := Option.bind_eq_some_iff.mp h
  obtain ⟨r₂, hexec, rfl⟩ := Option.map_eq_some_iff.mp hrest
  exact ⟨r₁, r₂, hstep, hexec, rfl⟩

theorem execute_append {as bs : List α} {s : σ} {r₁ r₂ : List ε × σ}
    (first : execute step as s = some r₁) (second : execute step bs r₁.2 = some r₂) :
    execute step (as ++ bs) s = some (r₁.1 ++ r₂.1, r₂.2) := by
  induction as generalizing s r₁ with
  | nil =>
      cases first
      exact second
  | cons a as ih =>
      obtain ⟨q₁, q₂, hstep, hexec, rfl⟩ := execute_cons first
      have htail := ih hexec second
      simp [execute, hstep, htail]

theorem execute_trans {P : α → Prop} {s s' s'' : σ}
    (first : ∃ as out, (∀ a ∈ as, P a) ∧ execute step as s = some (out, s'))
    (second : ∃ as out, (∀ a ∈ as, P a) ∧ execute step as s' = some (out, s'')) :
    ∃ as out, (∀ a ∈ as, P a) ∧ execute step as s = some (out, s'') := by
  obtain ⟨as, out, has, hexec⟩ := first
  obtain ⟨bs, out', hbs, hexec'⟩ := second
  refine ⟨as ++ bs, out ++ out', ?_, execute_append hexec hexec'⟩
  intro a ha
  exact (List.mem_append.mp ha).elim (has a) (hbs a)

theorem execute_rest {as bs : List α} {s : σ} {r q : List ε × σ}
    (h : execute step (as ++ bs) s = some r) (first : execute step as s = some q) :
    ∃ q', execute step bs q.2 = some q' ∧ r = (q.1 ++ q'.1, q'.2) := by
  induction as generalizing s r q with
  | nil =>
      cases first
      exact ⟨r, h, rfl⟩
  | cons a as ih =>
      obtain ⟨r₁, r₂, hstep, hrest, rfl⟩ := execute_cons h
      obtain ⟨q₁, q₂, hstep', hexec, rfl⟩ := execute_cons first
      cases hstep.symm.trans hstep'
      obtain ⟨q', hq, heq⟩ := ih hrest hexec
      refine ⟨q', hq, ?_⟩
      rw [heq, List.append_assoc]

theorem Reachable.refl (s : σ) : Reachable step s s := ⟨[], [], rfl⟩

theorem Reachable.trans {s₀ s s' : σ} {as : List α} {out : List ε} (h : Reachable step s₀ s)
    (hexec : execute step as s = some (out, s')) : Reachable step s₀ s' := by
  obtain ⟨bs, out₀, hb⟩ := h
  exact ⟨bs ++ as, out₀ ++ out, execute_append hb hexec⟩

/-- What each allowed step preserves and emits, every allowed execution does. -/
theorem execute_guarded {guard : σ → α → Prop} {I : σ → Prop} {P : ε → Prop}
    (hstep : ∀ s a r, I s → guard s a → step s a = some r → I r.2 ∧ ∀ e ∈ r.1, P e)
    {as : List α} {s : σ} {r : List ε × σ} (hinv : I s) (halong : Along step guard as s)
    (hexec : execute step as s = some r) : I r.2 ∧ ∀ e ∈ r.1, P e := by
  induction as generalizing s r with
  | nil =>
      cases hexec
      exact ⟨hinv, by simp⟩
  | cons a as ih =>
      obtain ⟨r₁, r₂, hfirst, hrest, rfl⟩ := execute_cons hexec
      obtain ⟨hinv₁, hgood₁⟩ := hstep s a r₁ hinv halong.1 hfirst
      obtain ⟨hinv₂, hgood₂⟩ := ih hinv₁ (halong.2 r₁ hfirst) hrest
      refine ⟨hinv₂, ?_⟩
      intro e he
      exact (List.mem_append.mp he).elim (hgood₁ e) (hgood₂ e)

/-- An invariant of what has been gathered from the output so far. -/
theorem execute_gathers {γ : Type*} {guard : σ → α → Prop} {I : γ → σ → Prop} {f : γ → ε → γ}
    (hstep : ∀ g s a r, I g s → guard s a → step s a = some r → I (r.1.foldl f g) r.2)
    {as : List α} {g : γ} {s : σ} {r : List ε × σ} (hinv : I g s) (halong : Along step guard as s)
    (hexec : execute step as s = some r) : I (r.1.foldl f g) r.2 := by
  induction as generalizing g s r with
  | nil =>
      cases hexec
      exact hinv
  | cons a as ih =>
      obtain ⟨r₁, r₂, hfirst, hrest, rfl⟩ := execute_cons hexec
      have hinv₁ := hstep g s a r₁ hinv halong.1 hfirst
      have hinv₂ := ih hinv₁ (halong.2 r₁ hfirst) hrest
      rwa [← List.foldl_append] at hinv₂

theorem execute_collects {γ : Type*} {guard : σ → α → Prop} {I : List γ → σ → Prop}
    {f : ε → List γ}
    (hstep : ∀ l s a r, I l s → guard s a → step s a = some r → I (l ++ r.1.flatMap f) r.2)
    {as : List α} {l : List γ} {s : σ} {r : List ε × σ} (hinv : I l s)
    (halong : Along step guard as s) (hexec : execute step as s = some r) :
    I (l ++ r.1.flatMap f) r.2 := by
  induction as generalizing l s r with
  | nil =>
      cases hexec
      rwa [List.flatMap_nil, List.append_nil]
  | cons a as ih =>
      obtain ⟨r₁, r₂, hfirst, hrest, rfl⟩ := execute_cons hexec
      have hinv₁ := hstep l s a r₁ hinv halong.1 hfirst
      have hinv₂ := ih hinv₁ (halong.2 r₁ hfirst) hrest
      rwa [List.append_assoc, ← List.flatMap_append] at hinv₂

/-- A measure that every step either lowers by its weight or pays for with a notice: an
execution that outweighs it gives one. -/
theorem execute_emits {guard : σ → α → Prop} {I : σ → Prop} {P : ε → Prop} {μ : σ → Nat}
    {weight : α → Nat}
    (hstep : ∀ s a r, I s → guard s a → step s a = some r →
      I r.2 ∧ ((∃ e ∈ r.1, P e) ∨ μ r.2 + weight a ≤ μ s))
    {as : List α} {s : σ} {r : List ε × σ} (hinv : I s) (halong : Along step guard as s)
    (hexec : execute step as s = some r) (houtweighs : μ s < (as.map weight).sum) :
    ∃ e ∈ r.1, P e := by
  induction as generalizing s r with
  | nil => simp at houtweighs
  | cons a as ih =>
      obtain ⟨r₁, r₂, hfirst, hrest, rfl⟩ := execute_cons hexec
      obtain ⟨hinv₁, ⟨e, he, hP⟩ | hless⟩ := hstep s a r₁ hinv halong.1 hfirst
      · exact ⟨e, List.mem_append_left _ he, hP⟩
      · rw [List.map_cons, List.sum_cons] at houtweighs
        have hrest' : μ r₁.2 < (as.map weight).sum := by omega
        obtain ⟨e, he, hP⟩ := ih hinv₁ (halong.2 r₁ hfirst) hrest hrest'
        exact ⟨e, List.mem_append_right _ he, hP⟩

theorem along_true (as : List α) (s : σ) : Along step (fun _ _ => True) as s := by
  induction as generalizing s with
  | nil => trivial
  | cons a as ih => exact ⟨trivial, fun r _ => ih r.2⟩

theorem along_of_forall {P : α → Prop} {as : List α} (h : ∀ a ∈ as, P a) (s : σ) :
    Along step (fun _ a => P a) as s := by
  induction as generalizing s with
  | nil => trivial
  | cons a as ih =>
      exact ⟨h a List.mem_cons_self, fun r _ => ih (fun b hb => h b (List.mem_cons_of_mem a hb)) r.2⟩

theorem Along.mono {guard guard' : σ → α → Prop} (himp : ∀ s a, guard s a → guard' s a)
    {as : List α} {s : σ} (h : Along step guard as s) : Along step guard' as s := by
  induction as generalizing s with
  | nil => trivial
  | cons a as ih => exact ⟨himp s a h.1, fun r hr => ih (h.2 r hr)⟩

theorem Along.and {guard guard' : σ → α → Prop} {as : List α} {s : σ}
    (h : Along step guard as s) (h' : Along step guard' as s) :
    Along step (fun s a => guard s a ∧ guard' s a) as s := by
  induction as generalizing s with
  | nil => trivial
  | cons a as ih => exact ⟨⟨h.1, h'.1⟩, fun r hr => ih (h.2 r hr) (h'.2 r hr)⟩

/-- Two guards agree along a run if they agree where an invariant holds, and keep it. -/
theorem along_iff {guard guard' : σ → α → Prop} {I : σ → Prop}
    (hiff : ∀ s a, I s → (guard s a ↔ guard' s a))
    (hstep : ∀ s a r, I s → guard s a → step s a = some r → I r.2) {as : List α} {s : σ}
    (hinv : I s) : Along step guard as s ↔ Along step guard' as s := by
  induction as generalizing s with
  | nil => rfl
  | cons a as ih =>
      unfold Along
      rw [hiff s a hinv]
      apply and_congr_right
      intro hguard
      have hguard' : guard s a := (hiff s a hinv).mpr hguard
      constructor
      · intro h r hr
        exact (ih (hstep s a r hinv hguard' hr)).mp (h r hr)
      · intro h r hr
        exact (ih (hstep s a r hinv hguard' hr)).mpr (h r hr)

def check (step : σ → α → Option (List ε × σ)) (test : σ → α → Bool) : List α → σ → Bool
  | [], _ => true
  | a :: as, s =>
      test s a &&
        match step s a with
        | none => true
        | some r => check step test as r.2

theorem along_of_check {test : σ → α → Bool} {as : List α} {s : σ}
    (h : check step test as s = true) : Along step (fun s a => test s a = true) as s := by
  induction as generalizing s with
  | nil => trivial
  | cons a as ih =>
      obtain ⟨htest, hrest⟩ := (Bool.and_eq_true _ _).mp h
      refine ⟨htest, ?_⟩
      intro r hr
      rw [hr] at hrest
      exact ih hrest

/-- A guard may take for granted what its steps preserve. -/
theorem Along.invariant {guard : σ → α → Prop} {I : σ → Prop}
    (hstep : ∀ s a r, I s → guard s a → step s a = some r → I r.2) {as : List α} {s : σ}
    (hinv : I s) (h : Along step guard as s) :
    Along step (fun s a => guard s a ∧ I s) as s := by
  induction as generalizing s with
  | nil => trivial
  | cons a as ih =>
      refine ⟨⟨h.1, hinv⟩, ?_⟩
      intro r hr
      exact ih (hstep s a r hinv h.1 hr) (h.2 r hr)

theorem Along.split {guard : σ → α → Prop} {as bs : List α} {s : σ} {r : List ε × σ}
    (h : Along step guard (as ++ bs) s) (hexec : execute step as s = some r) :
    Along step guard as s ∧ Along step guard bs r.2 := by
  induction as generalizing s r with
  | nil =>
      cases hexec
      exact ⟨trivial, h⟩
  | cons a as ih =>
      obtain ⟨r₁, r₂, hfirst, hrest, rfl⟩ := execute_cons hexec
      obtain ⟨has, hbs⟩ := ih (h.2 r₁ hfirst) hrest
      refine ⟨⟨h.1, ?_⟩, hbs⟩
      intro q hq
      cases hfirst.symm.trans hq
      exact has

theorem along_of_end {G : σ → Prop} (hback : ∀ s a r, step s a = some r → G r.2 → G s)
    {as : List α} {s : σ} {r : List ε × σ} (hexec : execute step as s = some r) (hend : G r.2) :
    G s ∧ Along step (fun s _ => G s) as s := by
  induction as generalizing s r with
  | nil =>
      cases hexec
      exact ⟨hend, trivial⟩
  | cons a as ih =>
      obtain ⟨r₁, r₂, hfirst, hrest, rfl⟩ := execute_cons hexec
      obtain ⟨hnext, halong⟩ := ih hrest hend
      have hnow := hback s a r₁ hfirst hnext
      refine ⟨hnow, hnow, ?_⟩
      intro q hq
      cases hfirst.symm.trans hq
      exact halong

theorem along_of_output {P : ε → Prop} {as : List α} {s : σ} {r : List ε × σ}
    (hexec : execute step as s = some r) (hout : ∀ e ∈ r.1, P e) :
    Along step (fun s a => ∀ q, step s a = some q → ∀ e ∈ q.1, P e) as s := by
  induction as generalizing s r with
  | nil => trivial
  | cons a as ih =>
      obtain ⟨r₁, r₂, hfirst, hrest, rfl⟩ := execute_cons hexec
      refine ⟨?_, ?_⟩
      · intro q hq e he
        cases hfirst.symm.trans hq
        exact hout e (List.mem_append_left _ he)
      · intro q hq
        cases hfirst.symm.trans hq
        exact ih hrest fun e he => hout e (List.mem_append_right _ he)

theorem execute_quiet_iff {guard quiet : σ → α → Prop} {I : σ → Prop} {P : ε → Prop}
    (hstep : ∀ s a r, I s → guard s a → step s a = some r →
      I r.2 ∧ ((∀ e ∈ r.1, P e) ↔ quiet s a))
    {as : List α} {s : σ} {r : List ε × σ} (hinv : I s) (halong : Along step guard as s)
    (hexec : execute step as s = some r) : (∀ e ∈ r.1, P e) ↔ Along step quiet as s := by
  induction as generalizing s r with
  | nil =>
      cases hexec
      simp [Along]
  | cons a as ih =>
      obtain ⟨r₁, r₂, hfirst, hrest, rfl⟩ := execute_cons hexec
      obtain ⟨hinv₁, hquiet⟩ := hstep s a r₁ hinv halong.1 hfirst
      have htail := ih hinv₁ (halong.2 r₁ hfirst) hrest
      have hsplit : (∀ e ∈ r₁.1 ++ r₂.1, P e) ↔ (∀ e ∈ r₁.1, P e) ∧ ∀ e ∈ r₂.1, P e :=
        List.forall_mem_append
      rw [hsplit, hquiet, htail]
      constructor
      · rintro ⟨ha, has⟩
        refine ⟨ha, ?_⟩
        intro q hq
        cases hfirst.symm.trans hq
        exact has
      · rintro ⟨ha, has⟩
        exact ⟨ha, has r₁ hfirst⟩

theorem execute_invariant {I : σ → Prop}
    (hstep : ∀ s a r, I s → step s a = some r → I r.2)
    {as : List α} {s : σ} {r : List ε × σ} (hinv : I s)
    (hexec : execute step as s = some r) : I r.2 := by
  induction as generalizing s r with
  | nil =>
      cases hexec
      exact hinv
  | cons a as ih =>
      obtain ⟨r₁, r₂, hfirst, hrest, rfl⟩ := execute_cons hexec
      have hinv₁ := hstep s a r₁ hinv hfirst
      exact @ih r₁.2 r₂ hinv₁ hrest

theorem Reachable.invariant {I : σ → Prop} {s₀ s : σ} (h : Reachable step s₀ s)
    (hinit : I s₀) (hstep : ∀ s a r, I s → step s a = some r → I r.2) : I s := by
  obtain ⟨as, out, hexec⟩ := h
  exact execute_invariant hstep hinit hexec

end Glowforge.Foundation.System
