import Glowforge.Asm.ScriptSource

/-! The script in program memory. The driver writes it there when it probes; a firmware that
is loaded later may overwrite it, so it is read back before every run and written again if it
is no longer there. From a run that was not refused, the engine does what the script does for
as long as program memory is left alone. -/
namespace Glowforge.Asm
open Foundation Sdma Engine

abbrev Ram := Nat → Word

def writeDatamem (ram : Ram) (words : List Word) (origin : Nat) : Ram := fun a =>
  if origin ≤ a then words[a - origin]?.getD (ram a) else ram a

def fetchDatamem (ram : Ram) (len origin : Nat) : List Word :=
  (List.range len).map fun k => ram (origin + k)

/-- Program memory as the engine sees it: the upper half of a word is the first. -/
def halfword (ram : Ram) (pc : Address) : Code :=
  (ram (pc.toNat / 2)).extractLsb' (if pc.toNat % 2 = 0 then 16 else 0) 16

theorem fetch_write (ram : Ram) (words : List Word) (origin : Nat) :
    fetchDatamem (writeDatamem ram words origin) words.length origin = words := by
  unfold fetchDatamem
  apply List.ext_getElem
  · rw [List.length_map, List.length_range]
  · intro k hk hk'
    rw [List.getElem_map, List.getElem_range, writeDatamem, if_pos (Nat.le_add_right origin k),
      Nat.add_sub_cancel_left, List.getElem?_eq_getElem hk']
    rfl

theorem pairs_getElem? {code : List Code} {k : Nat} {word : Code} (h : code[k]? = some word) :
    ∃ pair, (pairs code)[k / 2]? = some pair ∧
      pair.extractLsb' (if k % 2 = 0 then 16 else 0) 16 = word := by
  induction code using pairs.induct generalizing k with
  | case1 => cases h
  | case2 a =>
      cases k with
      | zero =>
          cases h
          refine ⟨_, rfl, ?_⟩
          exact BitVec.extractLsb'_append_eq_left
      | succ k => cases h
  | case3 a b rest ih =>
      match k with
      | 0 =>
          cases h
          exact ⟨_, rfl, BitVec.extractLsb'_append_eq_left⟩
      | 1 =>
          cases h
          exact ⟨_, rfl, BitVec.extractLsb'_append_eq_right⟩
      | k + 2 =>
          obtain ⟨pair, hpair, hhalf⟩ := ih (k := k) h
          refine ⟨pair, ?_, ?_⟩
          · rw [Nat.add_div_right k (by decide), pairs]
            exact hpair
          · rw [Nat.add_mod_right]
            exact hhalf

theorem holds_of_fetch {ram : Ram} {code : List Code} {origin : Nat}
    (hfits : 2 * origin + code.length ≤ 2 ^ 14)
    (h : fetchDatamem ram (pairs code).length origin = pairs code) :
    Holds (halfword ram) (BitVec.ofNat 14 (2 * origin)) code := by
  intro k word hword
  obtain ⟨pair, hpair, hhalf⟩ := pairs_getElem? hword
  have hk := (List.getElem?_eq_some_iff.mp hword).1
  have hplace : (BitVec.ofNat 14 (2 * origin) + BitVec.ofNat 14 k : Address).toNat = 2 * origin + k := by
    rw [← BitVec.ofNat_add, BitVec.toNat_ofNat, Nat.mod_eq_of_lt (by omega)]
  have hram : ram (origin + k / 2) = pair := by
    rw [← h, fetchDatamem, List.getElem?_map] at hpair
    obtain ⟨j, hj, heq⟩ := Option.map_eq_some_iff.mp hpair
    obtain ⟨hlt, rfl⟩ := List.getElem?_eq_some_iff.mp hj
    rwa [List.getElem_range] at heq
  rw [halfword, hplace, show (2 * origin + k) / 2 = origin + k / 2 by omega, hram,
    show (2 * origin + k) % 2 = k % 2 by omega]
  exact hhalf

def codeOf : Except (List String) (List Code) → List Code
  | .ok code => code
  | .error _ => []

theorem eq_ok_codeOf {x : Except (List String) (List Code)} {n : Nat} (h : x.map List.length = .ok n) :
    x = .ok (codeOf x) := by
  cases x with
  | ok code => rfl
  | error e => cases h

/-- The words of `asm/sdma.asm`. -/
@[irreducible] def sdmaCode : List Code := codeOf (assemble (sdmaAsm.map String.toList))

/-- `sdma_script`: what the build makes of them. -/
def sdmaScript : List Word := pairs sdmaCode

theorem assembled_length : (assemble (sdmaAsm.map String.toList)).map List.length = .ok 173 := by
  decide +kernel

theorem assemble_sdmaAsm : assemble (sdmaAsm.map String.toList) = .ok sdmaCode := by
  unfold sdmaCode
  exact eq_ok_codeOf assembled_length

theorem sdmaCode_length : sdmaCode.length = 173 := by
  have hlength := assembled_length
  rw [assemble_sdmaAsm] at hlength
  exact Except.ok.inj hlength

theorem sdmaAsm_assembled : Assembled sdmaLines sdmaCode := by
  have h := assembled_of_assemble assemble_sdmaAsm
  rwa [List.map_map] at h

def Intact (origin : Nat) (ram : Ram) : Prop :=
  fetchDatamem ram sdmaScript.length origin = sdmaScript

instance (origin : Nat) (ram : Ram) : Decidable (Intact origin ram) :=
  inferInstanceAs (Decidable (_ = _))

/-- What the two transfers of `verify_sdma_script` return, and what a failed write leaves. -/
structure Transfers where
  fetchRet : Int
  writeRet : Int
  garbled : Ram

def verifySdmaScript (origin : Nat) (t : Transfers) (ram : Ram) : Int × Ram :=
  if t.fetchRet ≠ 0 then (t.fetchRet, ram)
  else if ¬ Intact origin ram then
    if t.writeRet ≠ 0 then (t.writeRet, t.garbled)
    else (0, writeDatamem ram sdmaScript origin)
  else (0, ram)

theorem verify_intact {origin : Nat} {t : Transfers} {ram : Ram}
    (h : (verifySdmaScript origin t ram).1 = 0) : Intact origin (verifySdmaScript origin t ram).2 := by
  unfold verifySdmaScript at h ⊢
  split
  · next hfetch =>
      rw [if_pos hfetch] at h
      exact absurd h hfetch
  · next hfetch =>
      rw [if_neg hfetch] at h
      split
      · next hgone =>
          rw [if_pos hgone] at h
          split
          · next hwrite =>
              rw [if_pos hwrite] at h
              exact absurd h hwrite
          · exact fetch_write ram sdmaScript origin
      · next hthere => exact not_not.mp hthere

/-- With both transfers in order the script is there, whatever was there before. -/
theorem verify_ok {origin : Nat} {t : Transfers} (hfetch : t.fetchRet = 0) (hwrite : t.writeRet = 0)
    (ram : Ram) : (verifySdmaScript origin t ram).1 = 0 := by
  unfold verifySdmaScript
  rw [if_neg (not_not.mpr hfetch), if_neg (not_not.mpr hwrite)]
  split <;> rfl

namespace Processor

def withMachine (p : Processor) (m : Machine) : Processor := { p with m := m }

def host (fetch : Address → Code) (p : Processor) : HostAction → Option (List Event × Processor)
  | .tick fuel => exec (Processor.step fetch) fuel p
  | .start tail backward accelerate numSteps =>
      some ([], p.withMachine <|
        (((p.m.setWord 29 tail).setWord 30 (if backward then 0xFFFFFFFF else 1)).setWord 31
          numSteps).setWord 20 (if accelerate && !backward then laserInhibitBits else 0))
  | .publishTail tail => some ([], p.withMachine (p.m.setWord 29 tail))
  | .clear data position => some ([], p.withMachine (p.m.clear data position))
  | .setMotorLock bits => some ([], p.withMachine (p.m.setWord 18 bits))
  | .store addr b => some ([], p.withMachine { p.m with mem := Function.update p.m.mem addr b })

end Processor

structure Board where
  ram : Ram
  p : Processor

/-- What happens to the two: the host's part, with a run going ahead only if the script has
been verified, and somebody else's words in program memory. -/
inductive BoardAction where
  | host (a : HostAction)
  | run (t : Transfers) (tail : Word) (backward accelerate : Bool) (numSteps : Word)
  | clobber (ram : Ram)

def Board.step (origin : Nat) (b : Board) : BoardAction → Option (List Event × Board)
  | .host a => (b.p.host (halfword b.ram) a).map fun r => (r.1, { b with p := r.2 })
  | .run t tail backward accelerate numSteps =>
      let v := verifySdmaScript origin t b.ram
      if v.1 = 0 then
        (b.p.host (halfword v.2) (.start tail backward accelerate numSteps)).map fun r =>
          (r.1, ⟨v.2, r.2⟩)
      else some ([], { b with ram := v.2 })
  | .clobber ram => some ([], { b with ram := ram })

/-- `load_sdma_script`, on a program memory with anything in it. -/
def Board.load (args : ScriptArgs) (origin : Nat) (ram : Ram) : Board where
  ram := writeDatamem ram sdmaScript origin
  p := ⟨BitVec.ofNat 14 (origin * 2), (loadSdmaScript args).m⟩

/-- The labelled script, and program memory: it ticks only while the script is there. -/
structure Script where
  c : Config Label
  ram : Ram

def Script.step (origin : Nat) (s : Script) : BoardAction → Option (List Event × Script)
  | .host (.tick fuel) =>
      if Intact origin s.ram then
        (s.c.host (.tick fuel)).map fun r => (r.1, { s with c := r.2 })
      else none
  | .host a => (s.c.host a).map fun r => (r.1, { s with c := r.2 })
  | .run t tail backward accelerate numSteps =>
      let v := verifySdmaScript origin t s.ram
      if v.1 = 0 then
        (s.c.host (.start tail backward accelerate numSteps)).map fun r => (r.1, ⟨r.2, v.2⟩)
      else some ([], { s with ram := v.2 })
  | .clobber ram => some ([], { s with ram := ram })

def Script.load (args : ScriptArgs) (origin : Nat) (ram : Ram) : Script where
  c := loadSdmaScript args
  ram := writeDatamem ram sdmaScript origin

theorem At.withMachine {L : Type} [DecidableEq L] {P : Program L} {order : List L} {origin : Address}
    {c : Config L} {p : Processor} (h : At P order origin c p) (m : Machine) :
    At P order origin { c with m := m } (p.withMachine m) :=
  ⟨rfl, h.place⟩

structure Follows (origin : Nat) (s : Script) (b : Board) : Prop where
  ram : b.ram = s.ram
  at_ : At script labelOrder (BitVec.ofNat 14 (2 * origin)) s.c b.p

theorem follows_load (args : ScriptArgs) (origin : Nat) (ram : Ram) :
    Follows origin (Script.load args origin ram) (Board.load args origin ram) := by
  refine ⟨rfl, rfl, [], rfl, ?_⟩
  rw [Board.load, Nat.mul_comm]
  exact (BitVec.add_zero _).symm

theorem At.host {origin : Nat} (hfits : 2 * origin + sdmaCode.length ≤ 2 ^ 14) {c : Config Label}
    {p : Processor} {ram : Ram} {a : HostAction} {r : List Event × Config Label}
    (hat : At script labelOrder (BitVec.ofNat 14 (2 * origin)) c p)
    (hintact : (∃ fuel, a = .tick fuel) → Intact origin ram) (h : c.host a = some r) :
    ∃ p', p.host (halfword ram) a = some (r.1, p') ∧
      At script labelOrder (BitVec.ofNat 14 (2 * origin)) r.2 p' := by
  have hm := hat.machine
  cases a with
  | tick fuel =>
      have hholds := holds_of_fetch hfits (hintact ⟨fuel, rfl⟩)
      exact exec_of_refines (refines sdmaAsm_lists sdmaAsm_assembled hholds) hat h
  | start tail backward accelerate numSteps =>
      cases h
      refine ⟨_, rfl, ?_⟩
      rw [hm]
      exact hat.withMachine _
  | publishTail tail =>
      cases h
      refine ⟨_, rfl, ?_⟩
      rw [hm]
      exact hat.withMachine _
  | clear data position =>
      cases h
      refine ⟨_, rfl, ?_⟩
      rw [hm]
      exact hat.withMachine _
  | setMotorLock bits =>
      cases h
      refine ⟨_, rfl, ?_⟩
      rw [hm]
      exact hat.withMachine _
  | store addr byte =>
      cases h
      refine ⟨_, rfl, ?_⟩
      rw [hm]
      exact hat.withMachine _

theorem Script.host_cases {origin : Nat} {s : Script} {a : HostAction} {r : List Event × Script}
    (h : s.step origin (.host a) = some r) :
    ∃ q, s.c.host a = some q ∧ r = (q.1, { s with c := q.2 }) ∧
      ((∃ fuel, a = .tick fuel) → Intact origin s.ram) := by
  cases a with
  | tick fuel =>
      simp only [Script.step] at h
      split at h
      · next hintact =>
          obtain ⟨q, hq, rfl⟩ := Option.map_eq_some_iff.mp h
          exact ⟨q, hq, rfl, fun _ => hintact⟩
      · cases h
  | _ =>
      simp only [Script.step] at h
      obtain ⟨q, hq, rfl⟩ := Option.map_eq_some_iff.mp h
      exact ⟨q, hq, rfl, by rintro ⟨_, h⟩; cases h⟩

theorem follows_step {origin : Nat} (hfits : 2 * origin + sdmaCode.length ≤ 2 ^ 14) {s : Script}
    {b : Board} {a : BoardAction} {r : List Event × Script} (hf : Follows origin s b)
    (h : s.step origin a = some r) :
    ∃ b', b.step origin a = some (r.1, b') ∧ Follows origin r.2 b' := by
  obtain ⟨hram, hat⟩ := hf
  cases a with
  | host a =>
      obtain ⟨q, hq, rfl, hintact⟩ := Script.host_cases h
      rw [← hram] at hintact
      obtain ⟨p', hp', hat'⟩ := At.host hfits hat hintact hq
      exact ⟨{ b with p := p' }, by rw [Board.step, hp']; rfl, hram, hat'⟩
  | run t tail backward accelerate numSteps =>
      unfold Script.step at h
      unfold Board.step
      rw [hram]
      simp only at h ⊢
      split at h
      · next hok =>
          rw [if_pos hok]
          obtain ⟨q, hq, rfl⟩ := Option.map_eq_some_iff.mp h
          have hstart : (∃ fuel, HostAction.start tail backward accelerate numSteps = .tick fuel) →
              Intact origin (verifySdmaScript origin t s.ram).2 := by
            rintro ⟨_, h⟩
            cases h
          obtain ⟨p', hp', hat'⟩ := At.host hfits hat hstart hq
          exact ⟨⟨_, p'⟩, by rw [hp']; rfl, rfl, hat'⟩
      · next hbad =>
          rw [if_neg hbad]
          cases h
          exact ⟨_, rfl, rfl, hat⟩
  | clobber ram =>
      cases h
      exact ⟨{ b with ram := ram }, rfl, rfl, hat⟩

theorem script_reachable {origin : Nat} {args : ScriptArgs} {s : Script} {a : BoardAction}
    {r : List Event × Script} (hs : System.Reachable Config.host (loadSdmaScript args) s.c)
    (h : s.step origin a = some r) : System.Reachable Config.host (loadSdmaScript args) r.2.c := by
  have hgo {a : HostAction} {q : List Event × Config Label} (hq : s.c.host a = some q) :
      System.Reachable Config.host (loadSdmaScript args) q.2 := by
    have hend : System.execute Config.host [] q.2 = some ([], q.2) := rfl
    have hone := System.execute_cons_some hq hend
    exact hs.trans hone
  cases a with
  | host a =>
      obtain ⟨q, hq, rfl, -⟩ := Script.host_cases h
      exact hgo hq
  | run t tail backward accelerate numSteps =>
      unfold Script.step at h
      simp only at h
      split at h
      · obtain ⟨q, hq, rfl⟩ := Option.map_eq_some_iff.mp h
        exact hgo hq
      · cases h
        exact hs
  | clobber ram =>
      cases h
      exact hs

/-- Whatever was in program memory and is put into it between runs, the engine emits what the
labelled script does and computes what it does, in as many steps at most. -/
theorem board_follows {origin : Nat} (hfits : 2 * origin + sdmaCode.length ≤ 2 ^ 14)
    {args : ScriptArgs} {ram : Ram} {actions : List BoardAction} {out : List Event} {s : Script}
    (h : System.execute (Script.step origin) actions (Script.load args origin ram) = some (out, s)) :
    System.Reachable Config.host (loadSdmaScript args) s.c ∧
      ∃ b, System.execute (Board.step origin) actions (Board.load args origin ram) = some (out, b) ∧
        b.p.m = s.c.m ∧ b.ram = s.ram := by
  refine ⟨?_, ?_⟩
  · have hstep (s : Script) (a : BoardAction) (r : List Event × Script)
        (hs : System.Reachable Config.host (loadSdmaScript args) s.c)
        (hr : Script.step origin s a = some r) :
        System.Reachable Config.host (loadSdmaScript args) r.2.c :=
      script_reachable hs hr
    exact System.execute_invariant hstep (System.Reachable.refl (loadSdmaScript args)) h
  · have hstep (s : Script) (b : Board) (a : BoardAction) (r : List Event × Script)
        (hf : Follows origin s b) (hr : Script.step origin s a = some r) :
        ∃ b', Board.step origin b a = some (r.1, b') ∧ Follows origin r.2 b' :=
      follows_step hfits hf hr
    obtain ⟨b, hb, hram, hat⟩ := System.execute_of_refines hstep (follows_load args origin ram) h
    exact ⟨b, hb, hat.machine, hram⟩

theorem Script.tick {origin fuel : Nat} {s : Script} {q : List Event × Config Label}
    (hintact : Intact origin s.ram) (hq : s.c.host (.tick fuel) = some q) :
    s.step origin (.host (.tick fuel)) = some (q.1, { s with c := q.2 }) := by
  rw [Script.step, if_pos hintact, hq]
  rfl

theorem Script.run {origin : Nat} {s : Script} {t : Transfers}
    (hok : (verifySdmaScript origin t s.ram).1 = 0) (tail : Word) (backward accelerate : Bool)
    (numSteps : Word) : s.step origin (.run t tail backward accelerate numSteps) =
      some ([], ⟨s.c.start tail backward accelerate numSteps, (verifySdmaScript origin t s.ram).2⟩) := by
  simp only [Script.step]
  rw [if_pos hok]
  rfl

/-- The words are all overwritten after the first tick, and written again for the run. -/
theorem board_follows_reloaded :
    ∃ out b, System.execute (Board.step 3840)
      [.host (.tick 100), .clobber fun _ => 0, .run ⟨0, 0, fun _ => 0⟩ 2 false false 0,
        .host (.tick 400)]
      (Board.load (.over fun _ => 0) 3840 fun _ => 0) = some (out, b) ∧ Intact 3840 b.ram := by
  have hsome : (System.execute Config.host [.tick 100, .start 2 false false 0, .tick 400]
      (loadSdmaScript (.over fun _ => 0))).isSome = true := by decide +kernel
  obtain ⟨r, hr⟩ := Option.isSome_iff_exists.mp hsome
  obtain ⟨r₁, q₁, hfirst, hrest, -⟩ := System.execute_cons hr
  obtain ⟨r₂, q₂, hstart, hrest', -⟩ := System.execute_cons hrest
  obtain ⟨r₃, q₃, hlast, -, -⟩ := System.execute_cons hrest'
  obtain rfl := Option.some.inj hstart
  have hok : (verifySdmaScript 3840 ⟨0, 0, fun _ => 0⟩ fun _ => 0).1 = 0 := verify_ok rfl rfl _
  obtain ⟨written, hwritten⟩ : ∃ ram,
      (verifySdmaScript 3840 ⟨0, 0, fun _ => 0⟩ fun _ => 0).2 = ram := ⟨_, rfl⟩
  have hfound : Intact 3840 written := by
    rw [← hwritten]
    exact verify_intact hok
  have htick : (Script.load (.over fun _ => 0) 3840 fun _ => 0).step 3840 (.host (.tick 100)) =
      some (r₁.1, ⟨r₁.2, _⟩) := Script.tick (fetch_write (fun _ => 0) sdmaScript 3840) hfirst
  have hclobber (ram : Ram) : Script.step 3840 ⟨r₁.2, ram⟩ (.clobber fun _ => 0) =
      some ([], ⟨r₁.2, fun _ => 0⟩) := rfl
  have hrun : Script.step 3840 ⟨r₁.2, fun _ => 0⟩ (.run ⟨0, 0, fun _ => 0⟩ 2 false false 0) =
      some ([], ⟨r₁.2.start 2 false false 0, written⟩) := by
    rw [← hwritten]
    exact Script.run hok 2 false false 0
  have htick' : Script.step 3840 ⟨r₁.2.start 2 false false 0, written⟩ (.host (.tick 400)) =
      some (r₃.1, ⟨r₃.2, written⟩) := Script.tick hfound hlast
  have hend : System.execute (Script.step 3840) [] ⟨r₃.2, written⟩ = some ([], ⟨r₃.2, written⟩) := rfl
  have hexec := System.execute_cons_some htick (System.execute_cons_some (hclobber _)
    (System.execute_cons_some hrun (System.execute_cons_some htick' hend)))
  obtain ⟨-, b, hb, -, hram⟩ := board_follows (by rw [sdmaCode_length]; decide) hexec
  refine ⟨_, b, hb, ?_⟩
  rw [hram]
  exact hfound

end Glowforge.Asm
