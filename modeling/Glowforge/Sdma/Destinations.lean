import Glowforge.Sdma.Session

/-! Where the script's stores go. Two paths repoint a DMA destination through scratch
registers and back. Each block is followed with what its registers and the destinations
are known to hold; every block starts and ends with the destinations in their place. -/
namespace Glowforge.Sdma
open Foundation Engine Player

inductive Held where
  | any
  | fifoBitmask
  | pwm
  | fifoStart
  | context
  | epit
  | gpio
  | mailbox
  | one
  | level
  deriving DecidableEq, Repr

def Held.Of (args : ScriptArgs) (w : Word) : Held → Prop
  | .any => True
  | .fifoBitmask => w = args.fifoBitmask
  | .pwm => w = args.pwmSampleRegister
  | .fifoStart => w = args.fifoStartPhys
  | .context => w = args.contextAddress
  | .epit => w = args.epitStatusRegister
  | .gpio => w = args.gpioBase
  | .mailbox => w = args.mailboxPhys
  | .one => w = 1
  | .level => w &&& 0x7f = w

/-- What is known at a point of the script: of the registers, and of the destinations of the
peripheral and the burst unit. -/
structure Route where
  r0 : Held
  r1 : Held
  r2 : Held
  r3 : Held
  r4 : Held
  r5 : Held
  r6 : Held
  r7 : Held
  pda : Held
  mda : Held
  deriving DecidableEq, Repr

namespace Route

def get (a : Route) : Reg → Held
  | .r0 => a.r0
  | .r1 => a.r1
  | .r2 => a.r2
  | .r3 => a.r3
  | .r4 => a.r4
  | .r5 => a.r5
  | .r6 => a.r6
  | .r7 => a.r7

def set (a : Route) (r : Reg) (h : Held) : Route :=
  match r with
  | .r0 => { a with r0 := h }
  | .r1 => { a with r1 := h }
  | .r2 => { a with r2 := h }
  | .r3 => { a with r3 := h }
  | .r4 => { a with r4 := h }
  | .r5 => { a with r5 := h }
  | .r6 => { a with r6 := h }
  | .r7 => { a with r7 := h }

def steady : Route where
  r0 := .any
  r1 := .any
  r2 := .any
  r3 := .any
  r4 := .fifoBitmask
  r5 := .pwm
  r6 := .fifoStart
  r7 := .context
  pda := .epit
  mda := .gpio

structure Holds (a : Route) (args : ScriptArgs) (m : Machine) : Prop where
  regs : ∀ r, (a.get r).Of args (m.get r)
  pda : a.pda.Of args m.pda
  mda : a.mda.Of args m.mda
  mailbox : m.dm (args.contextAddress + 21) = args.mailboxPhys

def within (a b : Route) : Bool :=
  [a.r0, a.r1, a.r2, a.r3, a.r4, a.r5, a.r6, a.r7, a.pda, a.mda].zip
    [b.r0, b.r1, b.r2, b.r3, b.r4, b.r5, b.r6, b.r7, b.pda, b.mda]
    |>.all fun h => h.2 == .any || h.1 == h.2

/-- The register may be stored to a destination: the timer flag (r1) to the EPIT, the GPIO
word (r3) to the GPIO register, a masked level (r2) to the PWM, the 1 (r0) to the mailbox. -/
def mayStore (a : Route) (dst : Held) : Reg → Bool
  | .r1 => dst == .epit
  | .r3 => dst == .gpio
  | .r2 => dst == .pwm && a.r2 == .level
  | .r0 => dst == .mailbox && a.r0 == .one
  | _ => false

end Route

def Delivers (args : ScriptArgs) (addr w : Word) : Reg → Prop
  | .r1 => addr = args.epitStatusRegister
  | .r3 => addr = args.gpioBase
  | .r2 => addr = args.pwmSampleRegister ∧ w &&& 0x7f = w
  | .r0 => addr = args.mailboxPhys ∧ w = 1
  | _ => False

def Event.Delivered (args : ScriptArgs) : Event → Prop
  | .write addr w => ∃ r, Delivers args addr w r
  | _ => True

def Instr.route {L : Type} (a : Route) : Instr L → Option Route
  | .ldi r v => some (a.set r (if v = 1 then .one else .any))
  | .mov r s => some (a.set r (a.get s))
  | .andi r v => some (a.set r (if v = 0x7f then .level else .any))
  | .add r _ | .and r _ | .andn r _ | .addi r _ | .subi r _ | .xori r _ | .bseti r _ | .bclri r _ =>
      some (a.set r .any)
  | .ld r b d => some (a.set r (if a.get b = .context ∧ d = 21 then .mailbox else .any))
  | .st _ b d => if a.get b = .context ∧ d ≠ 21 then some a else none
  | .ldf r u =>
      if u = 0x09 then some (a.set r .any)
      else if u = 0xd0 then some (a.set r a.pda)
      else if u = 0x04 then some (a.set r a.mda)
      else some a
  | .stf r u =>
      if u = 0x14 then some { a with mda := a.get r }
      else if u = 0xd3 then some { a with pda := a.get r }
      else if u = 0xc8 then if a.mayStore a.pda r then some a else none
      else if u = 0x2b then if a.mayStore a.mda r then some a else none
      else some a
  | .btsti _ _ | .cmpeq _ _ | .cmpeqi _ _ | .notify _ | .bt _ | .bf _ | .loop _ _ | .done _ => some a

/-- The rest of a block can be followed, and wherever it is left everything is in its place. -/
def Route.follows (a : Route) : List (Instr Label) → Bool
  | [] => a.within .steady
  | .bt _ :: rest | .bf _ :: rest | .done _ :: rest => a.within .steady && a.follows rest
  | .loop _ _ :: body =>
      body.all (fun i => i.route a == some a) && { a with r0 := .any }.within .steady
  | i :: rest =>
      match i.route a with
      | none => false
      | some a' => a'.follows rest

theorem block_follows (l : Label) : Route.steady.follows l.block = true := by
  cases l <;> decide

variable {args : ScriptArgs} {a a' : Route} {m : Machine}

namespace Route

theorem Holds.steady_of_within (h : a.Holds args m) (hwithin : a.within .steady = true) :
    steady.Holds args m := by
  obtain ⟨hregs, hpda, hmda, hmailbox⟩ := h
  simp only [within, steady, List.zip_cons_cons, List.zip_nil_left, List.all_cons, List.all_nil,
    Bool.and_eq_true, Bool.or_eq_true, beq_iff_eq, reduceCtorEq, false_or] at hwithin
  obtain ⟨_, _, _, _, h4, h5, h6, h7, h8, h9, _⟩ := hwithin
  rw [h8] at hpda
  rw [h9] at hmda
  refine ⟨?_, hpda, hmda, hmailbox⟩
  intro r
  have hr := hregs r
  cases r with
  | r0 | r1 | r2 | r3 => trivial
  | r4 =>
      rw [get, h4] at hr
      exact hr
  | r5 =>
      rw [get, h5] at hr
      exact hr
  | r6 =>
      rw [get, h6] at hr
      exact hr
  | r7 =>
      rw [get, h7] at hr
      exact hr

theorem Holds.of_get (h : a.Holds args m) {m' : Machine} (hroute : ∀ r, a'.get r = a.get r)
    (hget : ∀ r, m'.get r = m.get r) (hpda : a'.pda.Of args m'.pda) (hmda : a'.mda.Of args m'.mda)
    (hdm : m'.dm (args.contextAddress + 21) = m.dm (args.contextAddress + 21)) :
    a'.Holds args m' := by
  refine ⟨?_, hpda, hmda, hdm.trans h.mailbox⟩
  intro r
  rw [hroute, hget]
  exact h.regs r

theorem Holds.set (h : a.Holds args m) {r : Reg} {held : Held} {w : Word} (hw : held.Of args w) :
    (a.set r held).Holds args (m.set r w) := by
  obtain ⟨hregs, hpda, hmda, hmailbox⟩ := h
  have hset : ∀ s, ((a.set r held).get s).Of args ((m.set r w).get s) := by
    intro s
    have hs := hregs s
    cases r <;> cases s <;> first | exact hw | exact hs
  cases r <;> exact ⟨hset, hpda, hmda, hmailbox⟩

theorem Holds.setFlagged (h : a.Holds args m) {r : Reg} {held : Held} {w : Word}
    (hw : held.Of args w) : (a.set r held).Holds args (m.setFlagged r w) := by
  have hset := h.set (r := r) hw
  exact hset.of_get (fun _ => rfl) (fun s => by cases s <;> rfl) hset.pda hset.mda rfl

theorem Holds.delivers (h : a.Holds args m) {dst : Held} {addr : Word} {r : Reg}
    (hdst : dst.Of args addr) (hmay : a.mayStore dst r = true) :
    Delivers args addr (m.get r) r := by
  have hr := h.regs r
  cases r with
  | r1 =>
      rw [eq_of_beq hmay] at hdst
      exact hdst
  | r3 =>
      rw [eq_of_beq hmay] at hdst
      exact hdst
  | r2 =>
      obtain ⟨hpwm, hlevel⟩ := (Bool.and_eq_true _ _).mp hmay
      rw [eq_of_beq hpwm] at hdst
      rw [get, eq_of_beq hlevel] at hr
      exact ⟨hdst, hr⟩
  | r0 =>
      obtain ⟨hmailbox, hone⟩ := (Bool.and_eq_true _ _).mp hmay
      rw [eq_of_beq hmailbox] at hdst
      rw [get, eq_of_beq hone] at hr
      exact ⟨hdst, hr⟩
  | r4 | r5 | r6 | r7 => contradiction

end Route

/-- What an instruction leaves is what the route says, and what it stores is delivered. -/
theorem exec_route {L : Type} {i : Instr L} (h : i.route a = some a') (hm : a.Holds args m) :
    a'.Holds args (i.exec m).2 ∧ ∀ e ∈ (i.exec m).1, e.Delivered args := by
  cases i with
  | ldi r v =>
      cases h
      refine ⟨hm.set ?_, by simp [Instr.exec]⟩
      split
      · next hv => rw [hv]; rfl
      · trivial
  | mov r s =>
      cases h
      exact ⟨hm.set (hm.regs s), by simp [Instr.exec]⟩
  | andi r v =>
      cases h
      refine ⟨hm.setFlagged ?_, by simp [Instr.exec]⟩
      split
      · next hv =>
          rw [hv]
          show m.get r &&& 0x7f &&& 0x7f = m.get r &&& 0x7f
          rw [BitVec.and_assoc, BitVec.and_self]
      · trivial
  | add r s | and r s | andn r s | addi r v | subi r v | xori r v =>
      cases h
      exact ⟨hm.setFlagged trivial, by simp [Instr.exec]⟩
  | bseti r n | bclri r n =>
      cases h
      exact ⟨hm.set trivial, by simp [Instr.exec]⟩
  | ld r b d =>
      cases h
      refine ⟨hm.set ?_, by simp [Instr.exec]⟩
      split
      · next hb =>
          have hctx := hm.regs b
          rw [hb.1] at hctx
          rw [hctx, hb.2]
          exact hm.mailbox
      · trivial
  | st r b d =>
      simp only [Instr.route] at h
      split at h
      · next hb =>
          cases h
          have hctx := hm.regs b
          rw [hb.1] at hctx
          have hother : args.contextAddress + 21 ≠ m.get b + d := by
            rw [hctx]
            intro heq
            exact hb.2 ((BitVec.add_right_inj _).mp heq).symm
          exact ⟨hm.of_get (fun _ => rfl) (fun s => by cases s <;> rfl) hm.pda hm.mda
            (Function.update_of_ne hother _ _), by simp [Instr.exec]⟩
      · contradiction
  | ldf r u =>
      simp only [Instr.route] at h
      simp only [Instr.exec]
      split_ifs at h ⊢ with hread hpda hmda
      · cases h
        exact ⟨hm.set trivial, by simp [Event.Delivered]⟩
      · cases h
        exact ⟨hm.set hm.pda, by simp⟩
      · cases h
        exact ⟨hm.set hm.mda, by simp⟩
      · cases h
        exact ⟨hm, by simp⟩
  | stf r u =>
      simp only [Instr.route] at h
      simp only [Instr.exec]
      by_cases hmsa : u = 0x10
      · subst hmsa
        cases h
        exact ⟨hm.of_get (fun _ => rfl) (fun s => by cases s <;> rfl) hm.pda hm.mda rfl, by simp⟩
      rw [if_neg hmsa]
      split_ifs at h ⊢ with hmda hpda hpd hmay hmd hmay
      · cases h
        exact ⟨hm.of_get (fun s => by cases s <;> rfl) (fun s => by cases s <;> rfl) hm.pda
          (hm.regs r) rfl, by simp⟩
      · cases h
        exact ⟨hm.of_get (fun s => by cases s <;> rfl) (fun s => by cases s <;> rfl) (hm.regs r)
          hm.mda rfl, by simp⟩
      · cases h
        refine ⟨hm, ?_⟩
        intro e he
        rw [List.mem_singleton.mp he]
        exact ⟨r, hm.delivers hm.pda hmay⟩
      · cases h
        refine ⟨hm, ?_⟩
        intro e he
        rw [List.mem_singleton.mp he]
        exact ⟨r, hm.delivers hm.mda hmay⟩
      · cases h
        exact ⟨hm, by simp⟩
  | btsti r n | cmpeq r s | cmpeqi r v =>
      cases h
      exact ⟨hm.of_get (fun _ => rfl) (fun s => by cases s <;> rfl) hm.pda hm.mda rfl,
        by simp [Instr.exec]⟩
  | notify j =>
      cases h
      exact ⟨hm, by simp [Instr.exec, Event.Delivered]⟩
  | bt l | bf l | loop l f | done j =>
      cases h
      exact ⟨hm, by simp [Instr.exec]⟩

theorem repeatBody_route {L : Type} {body : List (Instr L)}
    (hbody : ∀ i ∈ body, i.route a = some a) (n : Nat) (hm : a.Holds args m) :
    a.Holds args (repeatBody body n m).2 ∧ ∀ e ∈ (repeatBody body n m).1, e.Delivered args := by
  have honce (body : List (Instr L)) (hbody : ∀ i ∈ body, i.route a = some a)
      (acc : List Event × Machine)
      (hacc : a.Holds args acc.2 ∧ ∀ e ∈ acc.1, e.Delivered args) :
      let r := body.foldl (fun acc i => (acc.1 ++ (i.exec acc.2).1, (i.exec acc.2).2)) acc
      a.Holds args r.2 ∧ ∀ e ∈ r.1, e.Delivered args := by
    induction body generalizing acc with
    | nil => exact hacc
    | cons i body ih =>
        obtain ⟨hnext, hout⟩ := exec_route (hbody i List.mem_cons_self) hacc.1
        refine ih (fun j hj => hbody j (List.mem_cons_of_mem i hj)) _ ⟨hnext, ?_⟩
        intro e he
        exact (List.mem_append.mp he).elim (hacc.2 e) (hout e)
  induction n generalizing m with
  | zero => exact ⟨hm, by simp [repeatBody]⟩
  | succ n ih =>
      obtain ⟨hnext, hout⟩ := honce body hbody ([], m) ⟨hm, by simp⟩
      obtain ⟨hlast, hrest⟩ := ih hnext
      refine ⟨hlast, ?_⟩
      intro e he
      exact (List.mem_append.mp he).elim (hout e) (hrest e)

def Followed (args : ScriptArgs) (c : Config Label) : Prop :=
  ∃ a : Route, a.Holds args c.m ∧ a.follows c.rest = true

theorem followed_goto (l : Label) (h : Route.steady.Holds args m) :
    Followed args (script.goto l m) :=
  ⟨.steady, h, block_follows l⟩

theorem Followed.step {c : Config Label} {sig : Signal Event (Config Label)}
    (h : Followed args c) (hstep : script.step c = some sig) :
    Followed args sig.state ∧ (∀ e ∈ sig.out, e.Delivered args) ∧
      (∀ c', sig = .yield c' → Route.steady.Holds args c'.m) := by
  obtain ⟨a, hm, hfollows⟩ := h
  unfold Program.step at hstep
  split at hstep
  · rename_i hnil
    rw [hnil] at hfollows
    obtain ⟨l, hl, rfl⟩ := Option.map_eq_some_iff.mp hstep
    exact ⟨followed_goto l (hm.steady_of_within hfollows), by simp [Signal.out], by rintro _ ⟨⟩⟩
  · rename_i l rest heq
    rw [heq] at hfollows
    obtain ⟨hwithin, hrest⟩ := (Bool.and_eq_true _ _).mp hfollows
    cases hstep
    refine ⟨?_, by simp [Signal.out], by rintro _ ⟨⟩⟩
    simp only [Signal.state]
    split
    · exact followed_goto l (hm.steady_of_within hwithin)
    · exact ⟨a, hm, hrest⟩
  · rename_i l rest heq
    rw [heq] at hfollows
    obtain ⟨hwithin, hrest⟩ := (Bool.and_eq_true _ _).mp hfollows
    cases hstep
    refine ⟨?_, by simp [Signal.out], by rintro _ ⟨⟩⟩
    simp only [Signal.state]
    split
    · exact ⟨a, hm, hrest⟩
    · exact followed_goto l (hm.steady_of_within hwithin)
  · rename_i l f body heq
    rw [heq] at hfollows
    obtain ⟨hbody, hwithin⟩ := (Bool.and_eq_true _ _).mp hfollows
    cases hstep
    have hkeeps : ∀ i ∈ body, i.route a = some a := by
      intro i hi
      exact eq_of_beq (List.all_eq_true.mp hbody i hi)
    obtain ⟨hlast, hout⟩ := repeatBody_route hkeeps c.m.r0.toNat hm
    have hzero : Held.any.Of args 0 := trivial
    have hafter := hlast.set (r := .r0) hzero
    exact ⟨followed_goto l (hafter.steady_of_within hwithin), hout, by rintro _ ⟨⟩⟩
  · rename_i j rest heq
    rw [heq] at hfollows
    obtain ⟨hwithin, hrest⟩ := (Bool.and_eq_true _ _).mp hfollows
    cases hstep
    refine ⟨⟨a, hm, hrest⟩, by simp [Signal.out], ?_⟩
    rintro c' ⟨⟩
    exact hm.steady_of_within hwithin
  · rename_i i rest hbt hbf hloop hdone heq
    rw [heq] at hfollows
    cases hstep
    have hroute : (match i.route a with
        | none => false
        | some a' => a'.follows rest) = true := by
      cases i <;> first
        | exact hfollows
        | exact absurd rfl (hbt _)
        | exact absurd rfl (hbf _)
        | exact absurd rfl (hloop _ _)
        | exact absurd rfl (hdone _)
    split at hroute
    · contradiction
    · rename_i a' ha'
      obtain ⟨hnext, hout⟩ := exec_route ha' hm
      exact ⟨⟨a', hnext, hroute⟩, hout, by rintro _ ⟨⟩⟩

theorem Followed.runs {stop : Config Label → Bool} {n : Nat} {c c' : Config Label}
    {es : List Event} (h : Followed args c) (hruns : Runs script.step stop n c es c') :
    Followed args c' := by
  induction hruns with
  | refl n c => exact h
  | head hgo hstep _ ih => exact ih (h.step hstep).1

theorem Followed.exec {fuel : Nat} {c c' : Config Label} {es : List Event} (h : Followed args c)
    (hexec : exec script.step fuel c = some (es, c')) :
    Followed args c' ∧ Route.steady.Holds args c'.m ∧ ∀ e ∈ es, e.Delivered args := by
  induction fuel generalizing c es with
  | zero => contradiction
  | succ fuel ih =>
      unfold Engine.exec at hexec
      split at hexec
      · contradiction
      · rename_i c₁ hstep
        cases hexec
        obtain ⟨hnext, _, hwait⟩ := h.step hstep
        exact ⟨hnext, hwait c' rfl, by simp⟩
      · rename_i out c₁ hstep
        obtain ⟨r, hr, heq⟩ := Option.map_eq_some_iff.mp hexec
        cases heq
        obtain ⟨hnext, hout, _⟩ := h.step hstep
        obtain ⟨hlast, hwait, hrest⟩ := ih hnext hr
        refine ⟨hlast, hwait, ?_⟩
        intro e he
        exact (List.mem_append.mp he).elim (hout e) (hrest e)

def Stores (args : ScriptArgs) (c : Config Label) : Prop :=
  ∀ r u rest, c.rest = .stf r u :: rest →
    (u = 0xc8 → Delivers args c.m.pda (c.m.get r) r) ∧
    (u = 0x2b → Delivers args c.m.mda (c.m.get r) r)

theorem Followed.stores {c : Config Label} (h : Followed args c) : Stores args c := by
  obtain ⟨a, hm, hfollows⟩ := h
  intro r u rest heq
  rw [heq] at hfollows
  have hroute : (match (Instr.stf r u : Instr Label).route a with
      | none => false
      | some a' => a'.follows rest) = true := hfollows
  split at hroute
  · contradiction
  · rename_i a' ha'
    constructor
    · rintro rfl
      by_cases hmay : a.mayStore a.pda r = true
      · exact hm.delivers hm.pda hmay
      · simp [Instr.route, hmay] at ha'
    · rintro rfl
      by_cases hmay : a.mayStore a.mda r = true
      · exact hm.delivers hm.mda hmay
      · simp [Instr.route, hmay] at ha'

/-! The host writes words of the context, and none of them is the mailbox address. -/

structure SameWiring (m m' : Machine) : Prop where
  get : ∀ r, m'.get r = m.get r
  pda : m'.pda = m.pda
  mda : m'.mda = m.mda
  mailbox : m'.word 21 = m.word 21

theorem SameWiring.refl (m : Machine) : SameWiring m m := ⟨fun _ => rfl, rfl, rfl, rfl⟩

theorem SameWiring.setWord {m' : Machine} (h : SameWiring m m') {d : Word} (hd : d ≠ 21)
    (v : Word) : SameWiring m (m'.setWord d v) := by
  have hget : ∀ r, (m'.setWord d v).get r = m'.get r := by
    intro r
    cases r <;> rfl
  refine ⟨fun r => (hget r).trans (h.get r), h.pda, h.mda, ?_⟩
  have hother : m'.r7 + 21 ≠ m'.r7 + d := by
    intro heq
    exact hd ((BitVec.add_right_inj _).mp heq).symm
  exact (Function.update_of_ne hother _ _).trans h.mailbox

theorem SameWiring.clear (m : Machine) (data position : Bool) :
    SameWiring m (m.clear data position) := by
  have hself := SameWiring.refl m
  cases data <;> cases position
  · exact hself
  · exact ((hself.setWord (by decide) 0).setWord (by decide) 0).setWord (by decide) 0
  · exact ((hself.setWord (by decide) 0).setWord (by decide) 0).setWord (by decide) 0
  · exact (((((hself.setWord (by decide) 0).setWord (by decide) 0).setWord (by decide) 0).setWord
      (by decide) 0).setWord (by decide) 0).setWord (by decide) 0

theorem Route.Holds.sameWiring {m' : Machine} (h : a.Holds args m)
    (hr7 : m.r7 = args.contextAddress) (hsame : SameWiring m m') : a.Holds args m' := by
  have hr7' : m'.r7 = args.contextAddress := (hsame.get .r7).trans hr7
  have hmailbox := hsame.mailbox
  unfold Machine.word at hmailbox
  rw [hr7, hr7'] at hmailbox
  refine h.of_get (fun _ => rfl) hsame.get ?_ ?_ hmailbox
  · rw [hsame.pda]
    exact h.pda
  · rw [hsame.mda]
    exact h.mda

/-- Between ticks everything is in its place and the script can be followed. -/
structure AtRest (args : ScriptArgs) (c : Config Label) : Prop where
  followed : Followed args c
  steady : Route.steady.Holds args c.m

theorem AtRest.withMachine {c : Config Label} (h : AtRest args c) {m' : Machine}
    (hsame : SameWiring c.m m') : AtRest args (c.withMachine m') := by
  have hr7 : c.m.r7 = args.contextAddress := h.steady.regs .r7
  obtain ⟨a, hm, hfollows⟩ := h.followed
  exact ⟨⟨a, hm.sameWiring hr7 hsame, hfollows⟩, h.steady.sameWiring hr7 hsame⟩

theorem AtRest.host {c : Config Label} {act : HostAction} {r : List Event × Config Label}
    (h : AtRest args c) (hstep : c.host act = some r) : AtRest args r.2 := by
  have hself := SameWiring.refl c.m
  cases act with
  | tick fuel =>
      obtain ⟨hfollowed, hsteady, _⟩ := h.followed.exec hstep
      exact ⟨hfollowed, hsteady⟩
  | start tail backward accelerate numSteps =>
      cases hstep
      exact h.withMachine ((((hself.setWord (by decide) _).setWord (by decide) _).setWord
        (by decide) _).setWord (by decide) _)
  | publishTail tail =>
      cases hstep
      exact h.withMachine (hself.setWord (by decide) _)
  | clear data position =>
      cases hstep
      exact h.withMachine (SameWiring.clear c.m data position)
  | setMotorLock bits =>
      cases hstep
      exact h.withMachine (hself.setWord (by decide) _)
  | store addr b =>
      cases hstep
      exact h.withMachine ⟨fun r => by cases r <;> rfl, rfl, rfl, rfl⟩

theorem atRest_load (args : ScriptArgs) : AtRest args (loadSdmaScript args) := by
  have hsteady : Route.steady.Holds args (loadSdmaScript args).m := by
    refine ⟨fun r => by cases r <;> first | rfl | trivial, rfl, rfl, ?_⟩
    simp [loadSdmaScript, Program.goto, Machine.setWord]
  exact ⟨⟨.steady, hsteady, block_follows .start⟩, hsteady⟩

theorem atRest_reachable {c : Config Label}
    (h : System.Reachable Config.host (loadSdmaScript args) c) : AtRest args c :=
  h.invariant (atRest_load args) fun _ _ _ hrest hstep => hrest.host hstep

/-- The destinations and the registers of the arguments are as `load_sdma_script` set them. -/
structure InPlace (args : ScriptArgs) (m : Machine) : Prop where
  pda : m.pda = args.epitStatusRegister
  mda : m.mda = args.gpioBase
  r4 : m.r4 = args.fifoBitmask
  r5 : m.r5 = args.pwmSampleRegister
  r6 : m.r6 = args.fifoStartPhys
  r7 : m.r7 = args.contextAddress

theorem Route.Holds.inPlace (h : Route.steady.Holds args m) : InPlace args m :=
  ⟨h.pda, h.mda, h.regs .r4, h.regs .r5, h.regs .r6, h.regs .r7⟩

theorem Player.Drains.ne_boot {n : Nat} {p p' : Player} {es : List Event} {ph : Phase}
    (h : Drains n p es ph p') : ph ≠ .boot := by
  induction h with
  | park _ => nofun
  | last _ _ => nofun
  | more _ _ _ ih => exact ih

theorem Player.Tick.ne_boot {n : Nat} {ph ph' : Phase} {p p' : Player} {es : List Event}
    (h : Tick n ph p es ph' p') : ph' ≠ .boot := by
  cases h with
  | restart _ => nofun
  | play hdrains => exact hdrains.ne_boot

/-- At every tick boundary everything is in its place, and from the first tick on bit 0 of r1
is set; within the tick that follows, every store delivers what it should, and nothing else
is written. -/
theorem destinations_never_cross {c₀ : Config Label}
    (hreach : System.Reachable Config.host (loadSdmaScript args) c₀) :
    InPlace args c₀.m ∧ (c₀ = script.goto .start c₀.m ∨ bit c₀.m.r1 0 = true) ∧
    (∀ n out c, Runs script.step (fun _ => false) n c₀ out c → Stores args c) ∧
    ∀ fuel es c, exec script.step fuel c₀ = some (es, c) →
      InPlace args c.m ∧ bit c.m.r1 0 = true ∧ ∀ e ∈ es, e.Delivered args := by
  have hrest := atRest_reachable hreach
  obtain ⟨ph, hw⟩ := waits_host_reachable hreach
  refine ⟨hrest.steady.inPlace, ?_, ?_, ?_⟩
  · cases ph with
    | boot => exact .inl hw
    | ready => exact .inr hw.1
    | parked => exact .inr hw.1
  · intro n out c hruns
    exact (hrest.followed.runs hruns).stores
  · intro fuel es c hexec
    obtain ⟨hfollowed, hsteady, hdelivered⟩ := hrest.followed.exec hexec
    obtain ⟨n, ph', htick, hw'⟩ := tick_of_exec hw hexec
    refine ⟨hsteady.inPlace, ?_, hdelivered⟩
    cases ph' with
    | boot => exact absurd rfl htick.ne_boot
    | ready => exact hw'.1
    | parked => exact hw'.1

/-- A power byte and a motion byte are played, and the run parks. -/
theorem destinations_never_cross_powerByte :
    ∃ q, System.execute Config.host [.start 2 false false 0, .tick 200, .tick 400, .tick 200]
        (loadSdmaScript (.over fun a => if a = 0x20000000 then 0x85 else 1)) = some q ∧
      InPlace (.over fun a => if a = 0x20000000 then 0x85 else 1) q.2.m := by
  have hrun : (System.execute Config.host
      [.start 2 false false 0, .tick 200, .tick 400, .tick 200]
      (loadSdmaScript (.over fun a => if a = 0x20000000 then 0x85 else 1))).isSome = true := by
    decide +kernel
  obtain ⟨q, hq⟩ := Option.isSome_iff_exists.mp hrun
  exact ⟨q, hq, (destinations_never_cross ⟨_, q.1, hq⟩).1⟩

end Glowforge.Sdma
