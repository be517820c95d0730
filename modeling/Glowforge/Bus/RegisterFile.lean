import Glowforge.Bus.Device
import Mathlib.Tactic.IntervalCases

/-! The outputs of the PIC as the registers they are to its users: a read gives what was
written last, through whichever of the calls, and a call that fails leaves the others alone. -/
namespace Glowforge.Bus

def Op.Writes (reg : Nat) : Op → Prop
  | .read _ => False
  | .write r _ => r = reg

def lastWritten (reg : Nat) : List Op → PicValue → PicValue
  | [], v => v
  | .read _ :: os, v => lastWritten reg os v
  | .write r w :: os, v => lastWritten reg os (if r = reg then w else v)

theorem lastWritten_append (reg : Nat) (os os' : List Op) (v : PicValue) :
    lastWritten reg (os ++ os') v = lastWritten reg os' (lastWritten reg os v) := by
  induction os generalizing v with
  | nil => rfl
  | cons o os ih => cases o <;> exact ih _

theorem lastWritten_unwritten {reg : Nat} {os : List Op} (h : ∀ o ∈ os, ¬o.Writes reg)
    (v : PicValue) : lastWritten reg os v = v := by
  induction os with
  | nil => rfl
  | cons o os ih =>
      have htail := ih fun o' ho' => h o' (List.mem_cons_of_mem o ho')
      cases o with
      | read r => exact htail
      | write r w =>
          have hother : ¬r = reg := h _ List.mem_cons_self
          rw [lastWritten, if_neg hother, htail]

variable {σ : Type}

/-- The outputs of a device: a transfer that does not fail has written and read them, and one
that fails may have written some of them, but no other. -/
structure Keeps (D : Device σ) (value : σ → Nat → PicValue) (output : Nat → Prop) : Prop where
  unwritten : ∀ {os s reg}, output reg → (∀ o ∈ os, ¬Op.Writes reg o) →
    value (D.run os s).2 reg = value s reg
  written : ∀ {os s reg}, output reg → D.fault (D.run os s).2 = none →
    value (D.run os s).2 reg = lastWritten reg os (value s reg)
  read : ∀ {os s reg i}, output reg → D.fault (D.run os s).2 = none →
    os[i]? = some (.read reg) →
      (D.run os s).1[i]? = some (lastWritten reg (os.take i) (value s reg))

namespace PicCall

def asked (call : PicCall) : List Op :=
  match call.refused with
  | some _ => []
  | none => call.ops

def isRead : PicCall → Bool
  | .readOneRegister _ | .readRegisterRange _ _ => true
  | _ => false

/-- The transfer of a call did not fail, or it could not have written the register. -/
def Heard (reg : Nat) (call : PicCall) (result : Except Errno (List PicValue)) : Prop :=
  (∀ e, result ≠ .error (.transfer e)) ∨ ∀ o ∈ call.asked, ¬o.Writes reg

variable {D : Device σ} {value : σ → Nat → PicValue} {output : Nat → Prop} {reg : Nat}

theorem fault_none {call : PicCall} {a : Seen σ} (hallowed : call.refused = none)
    (h : ∀ e, (call.meaning D a).1 ≠ .error (.transfer e)) :
    D.fault (D.run call.ops a.device).2 = none := by
  cases hfault : D.fault (D.run call.ops a.device).2 with
  | none => rfl
  | some e =>
      refine absurd ?_ (h e)
      unfold meaning
      rw [hallowed]
      simp only [D.exchange_fault hfault]
      rfl

theorem fault_some {call : PicCall} {a : Seen σ} {e : Nat}
    (h : (call.meaning D a).1 = .error (.transfer e)) :
    D.fault (D.run call.ops a.device).2 = some e := by
  have hresult (value : Nat → PicValue) : call.result value ≠ .error (.transfer e) := by
    cases call <;> unfold result <;> grind
  unfold meaning at h
  cases hrefused : call.refused with
  | some e' =>
      rw [hrefused] at h
      have hown : e' = .transfer e := Except.error.inj h
      rw [hown] at hrefused
      unfold refused at hrefused
      grind
  | none =>
      rw [hrefused] at h
      simp only at h
      cases hfault : D.fault (D.run call.ops a.device).2 with
      | some e' =>
          rw [D.exchange_fault hfault] at h
          cases h
          rfl
      | none =>
          rw [D.exchange_ok hfault] at h
          exact absurd h (hresult _)

theorem meaning_device (D : Device σ) (call : PicCall) (a : Seen σ) :
    (call.meaning D a).2.device = (D.run call.asked a.device).2 := by
  unfold meaning asked
  cases hrefused : call.refused with
  | some e => rfl
  | none => exact D.exchange_device call.ops a

theorem meaning_heard (K : Keeps D value output) (hreg : output reg) {call : PicCall} {a : Seen σ}
    (h : call.Heard reg (call.meaning D a).1) :
    value (call.meaning D a).2.device reg = lastWritten reg call.asked (value a.device reg) := by
  rw [meaning_device]
  rcases h with hanswered | hunwritten
  · cases hrefused : call.refused with
    | some e =>
        unfold asked
        rw [hrefused]
        rfl
    | none =>
        have hfault := fault_none hrefused hanswered
        unfold asked
        rw [hrefused]
        exact K.written hreg hfault
  · rw [K.unwritten hreg hunwritten, lastWritten_unwritten hunwritten]

theorem meanings_heard (K : Keeps D value output) (hreg : output reg) {calls : List PicCall}
    {a : Seen σ} (h : List.Forall₂ (Heard reg) calls (meanings D calls a).1) :
    value (meanings D calls a).2.device reg =
      lastWritten reg (calls.flatMap asked) (value a.device reg) := by
  induction calls generalizing a with
  | nil => rfl
  | cons call calls ih =>
      obtain ⟨hcall, hcalls⟩ := List.forall₂_cons.mp h
      rw [meanings, ih hcalls, meaning_heard K hreg hcall, List.flatMap_cons, lastWritten_append]

theorem read_ops {call : PicCall} (h : call.isRead = true) :
    ∃ firstReg n, call.ops = (List.range n).map (fun i => .read (firstReg + i)) ∧
      ∀ value, call.result value = .ok ((List.range n).map value) := by
  cases call with
  | readOneRegister reg => exact ⟨reg.ctorIdx, 1, rfl, fun _ => rfl⟩
  | readRegisterRange firstReg lastReg => exact ⟨_, _, rfl, fun _ => rfl⟩
  | writeOneRegister reg newValue => contradiction
  | writeRegisterRange firstReg lastReg buf => contradiction
  | writeData buf => contradiction

theorem meaning_read (K : Keeps D value output) (hreg : output reg) {call : PicCall} {a : Seen σ}
    {i : Nat} {values : List PicValue} (hread : call.isRead = true)
    (hi : call.ops[i]? = some (.read reg)) (h : (call.meaning D a).1 = .ok values) :
    values[i]? = some (value a.device reg) := by
  obtain ⟨firstReg, n, hops, hresult⟩ := read_ops hread
  have hnone : ∀ o ∈ call.ops.take i, ¬o.Writes reg := by
    intro o ho
    rw [hops] at ho
    obtain ⟨k, _, rfl⟩ := List.mem_map.mp (List.mem_of_mem_take ho)
    exact id
  unfold meaning at h
  cases hrefused : call.refused with
  | some e =>
      rw [hrefused] at h
      contradiction
  | none =>
      rw [hrefused] at h
      simp only at h
      cases hfault : D.fault (D.run call.ops a.device).2 with
      | some e =>
          rw [D.exchange_fault hfault] at h
          contradiction
      | none =>
          have hvalue := K.read hreg hfault hi
          have hvalues := D.exchange_values (a := a) hfault
          have hlength : call.ops.length = n := by rw [hops, List.length_map, List.length_range]
          rw [lastWritten_unwritten hnone] at hvalue
          rw [hresult] at h
          rw [D.exchange_ok hfault] at h hvalues
          simp only [hlength] at h hvalues
          have hsame := Except.ok.inj h
          rw [← hsame, hvalues, hvalue]

theorem meanings_length (D : Device σ) (calls : List PicCall) (a : Seen σ) :
    (meanings D calls a).1.length = calls.length := by
  induction calls generalizing a with
  | nil => rfl
  | cons call calls ih => rw [meanings, List.length_cons, ih, List.length_cons]

theorem forall₂_heard {calls : List PicCall} {a : Seen σ}
    (h : ∀ call ∈ calls, ∀ o ∈ call.asked, ¬o.Writes reg) :
    List.Forall₂ (Heard reg) calls (meanings D calls a).1 := by
  induction calls generalizing a with
  | nil => exact .nil
  | cons call calls ih =>
      exact .cons (.inr (h call List.mem_cons_self))
        (ih fun call' hcall' => h call' (List.mem_cons_of_mem call hcall'))

end PicCall

theorem Keeps.write_read {D : Device σ} {value : σ → Nat → PicValue} {output : Nat → Prop}
    (K : Keeps D value output) {reg : PicRegister} (hreg : output reg.ctorIdx)
    {calls : List PicCall} (hcalls : ∀ call ∈ calls, ∀ o ∈ call.asked, ¬o.Writes reg.ctorIdx)
    {a : Seen σ} {u v : PicValue}
    (hwrite : (PicCall.meaning D (.writeOneRegister reg v) a).1 = .ok [])
    (hread : (PicCall.meaning D (.readOneRegister reg)
      (PicCall.meanings D calls (PicCall.meaning D (.writeOneRegister reg v) a).2).2).1 = .ok [u]) :
    u = v := by
  have hwritten : value (PicCall.meaning D (.writeOneRegister reg v) a).2.device reg.ctorIdx = _ :=
    PicCall.meaning_heard K hreg (.inl fun e he => by
      rw [hwrite] at he
      contradiction)
  have hunwritten : ∀ o ∈ calls.flatMap PicCall.asked, ¬o.Writes reg.ctorIdx := by
    intro o ho
    obtain ⟨call, hcall, ho⟩ := List.mem_flatMap.mp ho
    exact hcalls call hcall o ho
  have hkept := PicCall.meanings_heard K hreg (PicCall.forall₂_heard hcalls (D := D)
    (a := (PicCall.meaning D (.writeOneRegister reg v) a).2))
  rw [lastWritten_unwritten hunwritten, hwritten] at hkept
  have hat := PicCall.meaning_read K hreg (i := 0) rfl rfl hread
  rw [hkept] at hat
  exact (Option.some.inj hat).trans (if_pos rfl)

/-- `PIC_FIRST_OUTPUT_REGISTER` to `PIC_LAST_OUTPUT_REGISTER` -/
def IsOutput (reg : Nat) : Prop :=
  PicRegister.stepDacX.ctorIdx ≤ reg ∧ reg ≤ PicRegister.buttonLed3.ctorIdx

instance (reg : Nat) : Decidable (IsOutput reg) := inferInstanceAs (Decidable (_ ∧ _))

def picMakeSafe : PicCall := .writeRegisterRange .stepDacX .buttonLed3 (List.replicate 12 0)

theorem lastWritten_makeSafe {reg : Nat} (h : IsOutput reg) (v : PicValue) :
    lastWritten reg picMakeSafe.asked v = 0 := by
  obtain ⟨hfirst, hlast⟩ := h
  have hfirst : 9 ≤ reg := hfirst
  have hlast : reg ≤ 14 := hlast
  change lastWritten reg (List.append [.write 9 0, .write 10 0, .write 11 0, .write 12 0,
    .write 13 0, .write 14 0] ((List.range 6).map fun i => .read (9 + i))) v = 0
  interval_cases reg <;> rfl

def outputBank : Device (Nat → PicValue) where
  read reg s := (s reg, s)
  write reg v s := (s reg, if IsOutput reg then fun r => if r = reg then v else s r else s)
  status _ := 0
  fault _ := none
  cutOff _ := 0

theorem outputBank_run (os : List Op) (s : Nat → PicValue) {reg : Nat} (h : IsOutput reg) :
    (outputBank.run os s).2 reg = lastWritten reg os (s reg) := by
  induction os generalizing s with
  | nil => rfl
  | cons o os ih =>
      rw [Device.run, ih]
      cases o with
      | read r => rfl
      | write r w =>
          rw [lastWritten]
          congr 1
          by_cases hsame : r = reg
          · subst hsame
            rw [if_pos rfl]
            change (if IsOutput r then fun r' => if r' = r then w else s r' else s) r = w
            rw [if_pos h]
            exact if_pos rfl
          · rw [if_neg hsame]
            change (if IsOutput r then fun r' => if r' = r then w else s r' else s) reg = s reg
            split
            · exact if_neg (Ne.symm hsame)
            · rfl

theorem outputBank_keeps : Keeps outputBank (fun s reg => s reg) IsOutput where
  unwritten h hnone := by rw [outputBank_run _ _ h, lastWritten_unwritten hnone]
  written h _ := outputBank_run _ _ h
  read {os s reg i} h _ hi := by
    induction os generalizing s i with
    | nil => contradiction
    | cons o os ih =>
        cases i with
        | zero =>
            cases Option.some.inj hi
            rfl
        | succ i =>
            have htail := ih (s := (outputBank.op o s).2) rfl hi
            have hfirst : (outputBank.op o s).2 reg = lastWritten reg [o] (s reg) :=
              outputBank_run [o] s h
            have hsplit := lastWritten_append reg [o] (os.take i) (s reg)
            rw [Device.run, List.getElem?_cons_succ, htail, hfirst, List.take_succ_cons, ← hsplit,
              List.singleton_append]

theorem outputBank_heard (reg : Nat) (calls : List PicCall) (self : PicData) (s : Nat → PicValue) :
    List.Forall₂ (PicCall.Heard reg) calls (PicCall.runs outputBank.spi calls self s).1 := by
  obtain ⟨d, hruns, -⟩ := PicCall.runs_eq outputBank (self.shows_seen s) calls
  rw [hruns]
  change List.Forall₂ _ calls (PicCall.meanings outputBank calls (self.seen s)).1
  generalize self.seen s = a
  clear hruns
  induction calls generalizing a with
  | nil => exact .nil
  | cons call calls ih =>
      refine .cons (.inl fun e h => ?_) (ih _)
      have hfault := PicCall.fault_some h
      contradiction

variable {D : Device σ} {value : σ → Nat → PicValue} {output : Nat → Prop} {reg : Nat}

/-- A call that reads an output gives what was written to it last, by whichever calls, if none of
those that might have written it failed. -/
theorem reads_last_written (K : Keeps D value output) (hreg : output reg) (calls : List PicCall)
    (self : PicData) (s : σ) (last : PicCall) {i : Nat} {values : List PicValue}
    (hread : last.isRead = true) (hi : last.ops[i]? = some (.read reg))
    (hheard : List.Forall₂ (PicCall.Heard reg) calls (PicCall.runs D.spi calls self s).1)
    (hlast : (PicCall.runs D.spi (calls ++ [last]) self s).1.getLast? = some (.ok values)) :
    values[i]? = some (lastWritten reg (calls.flatMap PicCall.asked) (value s reg)) := by
  obtain ⟨d, hruns, hshows⟩ := PicCall.runs_eq D (self.shows_seen s) calls
  obtain ⟨d', hcall, _⟩ := last.run_eq D hshows
  rw [hruns] at hheard
  rw [PicCall.runs_append, hruns] at hlast
  simp only [PicCall.runs, hcall] at hlast
  rw [List.getLast?_concat] at hlast
  rw [PicCall.meaning_read K hreg hread hi (Option.some.inj hlast),
    PicCall.meanings_heard K hreg hheard]
  rfl

/-- Two writes of the lid's light, the second through the binary attribute, and a range read. -/
theorem reads_last_written_lid :
    [(0 : PicValue), 7, 0][1]? = some (lastWritten 11 ([.writeOneRegister .lidLed 5,
      .writeData [0x96, 7, 0], .readOneRegister .dummy].flatMap PicCall.asked) 3) :=
  reads_last_written outputBank_keeps (by decide)
    [.writeOneRegister .lidLed 5, .writeData [0x96, 7, 0], .readOneRegister .dummy]
    ⟨⟨fun _ => 0xff⟩, fun _ => 0xff, 0⟩ (fun r => if r = 11 then 3 else 0)
    (.readRegisterRange .stepDacY .buttonLed1) rfl rfl
    (outputBank_heard 11 _ _ _)
    (by decide)

/-- Once made safe, whatever was asked before, an output stays dark until a call writes it. -/
theorem safe_stays (K : Keeps D value output) (reg : Nat) (hreg : output reg) (hout : IsOutput reg)
    (before after : List PicCall) (self : PicData) (s : σ)
    (hsafe : ∀ e, (PicCall.runs D.spi (before ++ picMakeSafe :: after) self s).1[before.length]? ≠
      some (.error (.transfer e)))
    (hafter : ∀ call ∈ after, ∀ o ∈ call.asked, ¬o.Writes reg) :
    value (PicCall.runs D.spi (before ++ picMakeSafe :: after) self s).2.2 reg = 0 := by
  obtain ⟨d, hruns, _⟩ := PicCall.runs_eq D (self.shows_seen s) (before ++ picMakeSafe :: after)
  rw [hruns] at hsafe ⊢
  rw [PicCall.meanings_append] at hsafe ⊢
  simp only [PicCall.meanings] at hsafe ⊢
  rw [← PicCall.meanings_length D before (self.seen s)] at hsafe
  simp only [List.getElem?_append_right le_rfl, Nat.sub_self, List.getElem?_cons_zero] at hsafe
  have hdark : value (PicCall.meaning D picMakeSafe (PicCall.meanings D before (self.seen s)).2).2.device
      reg = _ := PicCall.meaning_heard K hreg (.inl fun e h => hsafe e (congrArg some h))
  rw [PicCall.meanings_heard K hreg (PicCall.forall₂_heard hafter),
    lastWritten_unwritten (by
      intro o ho
      obtain ⟨call, hcall, ho⟩ := List.mem_flatMap.mp ho
      exact hafter call hcall o ho), hdark, lastWritten_makeSafe hout]

theorem safe_stays_lid :
    (PicCall.runs outputBank.spi ([.writeOneRegister .lidLed 5] ++ picMakeSafe ::
      [.writeOneRegister .stepDacX 33]) ⟨⟨fun _ => 0xff⟩, fun _ => 0xff, 0⟩ (fun _ => 3)).2.2 11 =
      0 :=
  safe_stays outputBank_keeps 11 (by decide) (by decide)
    [.writeOneRegister .lidLed 5] [.writeOneRegister .stepDacX 33]
    ⟨⟨fun _ => 0xff⟩, fun _ => 0xff, 0⟩ (fun _ => 3)
    (by
      intro e h
      cases h)
    (by
      intro call hcall o ho hwrites
      rw [List.mem_singleton.mp hcall] at ho
      rcases List.mem_pair.mp ho with rfl | rfl
      · exact absurd (show 9 = 11 from hwrites) (by decide)
      · exact hwrites)

end Glowforge.Bus
