import Glowforge.Cnc.Counted
import Glowforge.Cnc.PulsebufLock
import Glowforge.Cnc.RunScoped

/-! The registers of the script that the host loads. Every section leaves the script's
program counter and its own registers alone, and of the context words it loads no others
than the ones listed for it. -/
namespace Glowforge.Cnc
open Foundation Sdma Player

/-- The host has loaded at most these context words, and stored into the memory. -/
def Rewritten (words : List Word) (c c' : Config Label) : Prop :=
  ∃ dm mem, c' = c.withMachine { c.m with dm := dm, mem := mem } ∧
    ∀ w, w ∉ words → dm (c.m.r7 + w) = c.m.dm (c.m.r7 + w)

namespace Rewritten

variable {words : List Word} {c c' c'' : Config Label}

theorem refl (words : List Word) (c : Config Label) : Rewritten words c c :=
  ⟨c.m.dm, c.m.mem, rfl, fun _ _ => rfl⟩

theorem trans (h : Rewritten words c c') (h' : Rewritten words c' c'') :
    Rewritten words c c'' := by
  obtain ⟨dm, mem, rfl, hdm⟩ := h
  obtain ⟨dm', mem', rfl, hdm'⟩ := h'
  exact ⟨dm', mem', rfl, fun w hw => (hdm' w hw).trans (hdm w hw)⟩

theorem setWord {w : Word} (hw : w ∈ words) (c : Config Label) (v : Word) :
    Rewritten words c (c.withMachine (c.m.setWord w v)) := by
  refine ⟨_, c.m.mem, rfl, ?_⟩
  intro u hu
  have hne : c.m.r7 + u ≠ c.m.r7 + w := by
    intro heq
    rw [BitVec.add_right_inj] at heq
    rw [heq] at hu
    exact hu hw
  exact Function.update_of_ne hne _ _

theorem store (words : List Word) (c : Config Label) (mem : Word → Byte) :
    Rewritten words c (c.withMachine { c.m with mem := mem }) :=
  ⟨c.m.dm, mem, rfl, fun _ _ => rfl⟩

theorem word (h : Rewritten words c c') {w : Word} (hw : w ∉ words) : c'.m.word w = c.m.word w := by
  obtain ⟨dm, mem, rfl, hdm⟩ := h
  exact hdm w hw

theorem waits (h : Rewritten words c c') {ph : Phase} (hw : ph.Waits c) : ph.Waits c' := by
  obtain ⟨dm, mem, rfl, -⟩ := h
  exact hw.withMachine rfl

theorem registers (h : Rewritten words c c') :
    c'.m.mda = c.m.mda ∧ c'.m.pda = c.m.pda ∧ c'.m.r5 = c.m.r5 := by
  obtain ⟨dm, mem, rfl, -⟩ := h
  exact ⟨rfl, rfl, rfl⟩

end Rewritten

def clearWords (data position : Bool) : List Word :=
  (if position then [24, 25, 26] else []) ++ if data then [27, 28, 29] else []

theorem rewritten_three {words : List Word} {u v w : Word} (hu : u ∈ words) (hv : v ∈ words)
    (hw : w ∈ words) (c : Config Label) (a b d : Word) :
    Rewritten words c (c.withMachine (((c.m.setWord u a).setWord v b).setWord w d)) := by
  have h₁ : Rewritten words c (c.withMachine (c.m.setWord u a)) := .setWord hu c a
  have h₂ : Rewritten words (c.withMachine (c.m.setWord u a))
      (c.withMachine ((c.m.setWord u a).setWord v b)) := .setWord hv _ b
  have h₃ : Rewritten words (c.withMachine ((c.m.setWord u a).setWord v b))
      (c.withMachine (((c.m.setWord u a).setWord v b).setWord w d)) := .setWord hw _ d
  exact (h₁.trans h₂).trans h₃

theorem rewritten_clear (c : Config Label) (data position : Bool) :
    Rewritten (clearWords data position) c (c.clear data position) := by
  have hposition : Rewritten (clearWords data position) c
      (c.withMachine (if position then ((c.m.setWord 24 0).setWord 25 0).setWord 26 0 else c.m)) := by
    cases position with
    | false => exact .refl _ c
    | true =>
        have hmem : ∀ w ∈ [24, 25, 26], w ∈ clearWords data true := by
          intro w hw
          exact List.mem_append_left _ hw
        exact rewritten_three (hmem 24 (by decide)) (hmem 25 (by decide)) (hmem 26 (by decide)) c
          0 0 0
  refine hposition.trans ?_
  unfold Config.clear Machine.clear
  generalize (if position then ((c.m.setWord 24 0).setWord 25 0).setWord 26 0 else c.m) = m
  cases data with
  | false => exact .refl _ _
  | true =>
      have hmem : ∀ w ∈ [27, 28, 29], w ∈ clearWords true position := by
        intro w hw
        exact List.mem_append_right _ hw
      exact rewritten_three (hmem 27 (by decide)) (hmem 28 (by decide)) (hmem 29 (by decide))
        (c.withMachine m) 0 0 0

namespace Call

variable {i : Nat} {d d' : Driver} {p p' : Call} {o : List Notice} {move : Move}

def loads : Call → List Word
  | .start _ (.regs _) => [29, 30, 31]
  | .start _ (.inhibit _) => [20]
  | .write _ .publish => [29]
  | .clear data position .clear => clearWords data position
  | _ => []

/-- The context words that any section loads. -/
def hostWords : List Word := [20, 24, 25, 26, 27, 28, 29, 30, 31]

theorem loads_subset (p : Call) : p.loads ⊆ hostWords := by
  have hclear (data position : Bool) : clearWords data position ⊆ hostWords := by
    cases data <;> cases position <;> decide
  cases p with
  | start opts pc =>
      cases pc with
      | regs gen => exact (by decide : ([29, 30, 31] : List Word) ⊆ hostWords)
      | inhibit gen => exact (by decide : ([20] : List Word) ⊆ hostWords)
      | _ => exact List.nil_subset _
  | write data pc =>
      cases pc with
      | publish => exact (by decide : ([29] : List Word) ⊆ hostWords)
      | _ => exact List.nil_subset _
  | clear data position pc =>
      cases pc with
      | clear => exact hclear data position
      | _ => exact List.nil_subset _
  | _ => exact List.nil_subset _

theorem rewritten_loadRegs (b : Pulsebuf) (opts : CncRunOptions) :
    Rewritten [29, 30, 31] b.engine (b.loadRegs opts).engine :=
  rewritten_three (by decide) (by decide) (by decide) b.engine _ _ _

theorem StartStep.rewritten {opts : CncRunOptions} {ok : Bool} {pc : StartPc}
    (h : StartStep i d opts ok pc o d' p') :
    Rewritten (Call.start opts pc).loads d.buf.engine d'.buf.engine := by
  cases h with
  | noData hbuf => rcases hbuf with rfl | rfl <;> exact .refl _ _
  | measured hbuf hadmits hreach => rcases hbuf with rfl | rfl <;> exact .refl _ _
  | tooLong hbuf => rcases hbuf with rfl | rfl <;> exact .refl _ _
  | regs => exact rewritten_loadRegs d.buf opts
  | inhibit => exact .setWord List.mem_cons_self d.buf.engine _
  | powerEnable => cases ok <;> exact .refl _ _
  | supplyDisable => cases ok <;> exact .refl _ _
  | committed hclear hgen hstate =>
      have hbuf : (d.commit opts).buf = d.buf :=
        congrArg Aside.buf (Driver.aside_commit d opts)
      rw [hbuf]
      exact .refl _ _
  | _ => exact .refl _ _

theorem WriteStep.rewritten {data : List Byte} {ok : Bool} {pc : WritePc}
    (h : WriteStep i d data ok pc o d' p') :
    Rewritten (Call.write data pc).loads d.buf.engine d'.buf.engine := by
  cases h with
  | published => exact .setWord List.mem_cons_self d.buf.engine _
  | _ => exact .refl _ _

theorem CopyStep.rewritten {data : List Byte} (h : CopyStep d data d' p') (words : List Word) :
    Rewritten words d.buf.engine d'.buf.engine := by
  cases h with
  | copied hfit hc =>
      rw [hc]
      exact .store words d.buf.engine _
  | rolledBack bs e hfit hc =>
      rw [hc]
      exact .store words d.buf.engine _

theorem ClearStep.rewritten {data position ok : Bool} {pc : ClearPc}
    (h : ClearStep i d data position ok pc o d' p') :
    Rewritten (Call.clear data position pc).loads d.buf.engine d'.buf.engine := by
  cases h with
  | cleared hc =>
      rw [hc]
      exact rewritten_clear d.buf.engine data position
  | clearFailed hok => cases data <;> exact .refl _ _
  | _ => exact .refl _ _

theorem NextStep.rewritten (h : NextStep i d p move o d' p') :
    Rewritten p.loads d.buf.engine d'.buf.engine := by
  cases h with
  | begin hbegin => exact .refl _ _
  | invalid e => exact .refl _ _
  | start hstep => exact hstep.rewritten
  | write hstep => exact hstep.rewritten
  | copy hstep => exact hstep.rewritten _
  | clear hstep => exact hstep.rewritten
  | offRing hp hp' hsupply =>
      rw [hsupply.buf]
      exact .refl _ _

theorem NextStep.ring (h : NextStep i d p move o d' p') :
    d'.buf.fifo.mask = d.buf.fifo.mask ∧ d'.buf.phys = d.buf.phys := by
  cases h with
  | begin hbegin => exact ⟨rfl, rfl⟩
  | invalid e => exact ⟨rfl, rfl⟩
  | @start opts pc ok o d' p' hstep =>
      cases hstep with
      | noData hbuf => rcases hbuf with rfl | rfl <;> exact ⟨rfl, rfl⟩
      | measured hbuf hadmits hreach => rcases hbuf with rfl | rfl <;> exact ⟨rfl, rfl⟩
      | tooLong hbuf => rcases hbuf with rfl | rfl <;> exact ⟨rfl, rfl⟩
      | powerEnable => cases ok <;> exact ⟨rfl, rfl⟩
      | supplyDisable => cases ok <;> exact ⟨rfl, rfl⟩
      | committed hclear hgen hstate =>
          rw [show (d.commit opts).buf = d.buf from congrArg Aside.buf (Driver.aside_commit d opts)]
          exact ⟨rfl, rfl⟩
      | _ => exact ⟨rfl, rfl⟩
  | write hstep => cases hstep <;> exact ⟨rfl, rfl⟩
  | copy hstep => cases hstep <;> exact ⟨rfl, rfl⟩
  | @clear data position pc ok o d' p' hstep =>
      cases hstep with
      | cleared hc => cases data <;> exact ⟨rfl, rfl⟩
      | clearFailed hok => cases data <;> exact ⟨rfl, rfl⟩
      | _ => exact ⟨rfl, rfl⟩
  | offRing hp hp' hsupply =>
      rw [hsupply.buf]
      exact ⟨rfl, rfl⟩

end Call

theorem Pulsebuf.Shares.of_rewritten {k : Nat} {b b' : Pulsebuf} {words : List Word}
    (h : b.Shares k) (hc : Rewritten words b.engine b'.engine)
    (hring : b'.fifo.mask = b.fifo.mask ∧ b'.phys = b.phys) : b'.Shares k := by
  obtain ⟨ph, hw⟩ := h.waits
  have hsame : b'.player.mask = b.player.mask ∧ b'.player.base = b.player.base := by
    obtain ⟨dm, mem, heq, -⟩ := hc
    unfold Pulsebuf.player
    rw [heq]
    exact ⟨rfl, rfl⟩
  refine ⟨h.order, ?_, ?_, ?_, ⟨ph, hc.waits hw⟩⟩
  · rw [hring.1]
    exact h.ring
  · rw [hring.1, hsame.1]
    exact h.mask
  · rw [hring.2, hsame.2]
    exact h.base

theorem Driver.around_engine {d : Driver} {event : Surrounding} {r : List Notice × Driver}
    (h : d.around event = some r) (htick : ∀ fuel, event ≠ .tick fuel) :
    r.2.buf.engine = d.buf.engine := by
  rcases around_aside h htick with haside | haside
  · exact congrArg (fun b => b.buf.engine) haside
  · exact congrArg (fun b => b.buf.engine) haside

theorem Control.RunScoped.running_of_tick {d : Driver} {fuel : Nat} {r : List Notice × Driver}
    (hscoped : d.control.RunScoped) (h : d.tick fuel = some r) : d.status.state = .running := by
  by_contra hstate
  have hstopped : d.epit.running = false := (hscoped.stopped hstate).1
  rw [(Driver.tick_cases h).1] at hstopped
  cases hstopped

namespace Threads

/-- Between the steps of the driver the script is at one of its waits. -/
def Waiting (T : Threads) : Prop := ∃ ph : Phase, ph.Waits T.shared.buf.engine

theorem waiting_probe (ringMb : Nat) (args : ScriptArgs) (lines : PinId → Bool) (railOn : Bool) :
    Waiting (probe ringMb args lines railOn) := ⟨.boot, waits_load _⟩

theorem Waiting.step {T : Threads} {a : Action} {r : List Notice × Threads} (h : Waiting T)
    (hstep : T.step a = some r) : Waiting r.2 := by
  obtain ⟨ph, hw⟩ := h
  cases a with
  | thread i move =>
      obtain ⟨d, p, hnext, hr⟩ := Pool.step_thread hstep
      rw [hr]
      exact ⟨ph, (Call.nextStep_of_next hnext).rewritten.waits hw⟩
  | surround event =>
      obtain ⟨d, haround, hr⟩ := Pool.step_surround hstep
      rw [hr]
      by_cases htick : ∃ fuel, event = .tick fuel
      · obtain ⟨fuel, rfl⟩ := htick
        obtain ⟨-, es, c, hhost, hd⟩ := Driver.tick_cases haround
        have hc : d.buf.engine = c := congrArg (fun r => r.2.buf.engine) hd
        obtain ⟨ph', hw'⟩ := waits_of_host hw hhost
        exact ⟨ph', by rw [hc]; exact hw'⟩
      · have hsame : d.buf.engine = T.shared.buf.engine :=
          Driver.around_engine haround fun fuel heq => htick ⟨fuel, heq⟩
        exact ⟨ph, by rw [hsame]; exact hw⟩

/-- Host and script share one ring, which stays where it is. -/
structure Ringed (k : Nat) (phys : Word) (T : Threads) : Prop where
  shares : T.shared.buf.Shares k
  phys : T.shared.buf.phys = phys

theorem ringed_probe (ringMb : Nat) (args : ScriptArgs) (lines : PinId → Bool) (railOn : Bool) :
    ∃ k, Ringed k args.fifoStartPhys (probe ringMb args lines railOn) := by
  obtain ⟨k, h⟩ := Playback.shares_init ringMb args
  exact ⟨k, h, rfl⟩

theorem Ringed.step {k : Nat} {phys : Word} {T : Threads} {a : Action}
    {r : List Notice × Threads} (h : Ringed k phys T) (hstep : T.step a = some r) :
    Ringed k phys r.2 := by
  cases a with
  | thread i move =>
      obtain ⟨d, p, hnext, hr⟩ := Pool.step_thread hstep
      have hnextStep : Call.NextStep i T.shared (T.threads i) move r.1 d p :=
        Call.nextStep_of_next hnext
      rw [hr]
      exact ⟨h.shares.of_rewritten hnextStep.rewritten hnextStep.ring,
        hnextStep.ring.2.trans h.phys⟩
  | surround event =>
      obtain ⟨d, haround, hr⟩ := Pool.step_surround hstep
      rw [hr]
      by_cases htick : ∃ fuel, event = .tick fuel
      · obtain ⟨fuel, rfl⟩ := htick
        obtain ⟨-, es, c, hhost, hd⟩ := Driver.tick_cases haround
        have hbuf : d.buf = { T.shared.buf with engine := c } := congrArg (fun r => r.2.buf) hd
        refine ⟨?_, ?_⟩
        · change d.buf.Shares k
          rw [hbuf]
          exact h.shares.tick hhost
        · change d.buf.phys = phys
          rw [hbuf]
          exact h.phys
      · have hbuf : d.buf = T.shared.buf ∨ d.buf = T.shared.buf.synced := by
          rcases Driver.around_aside haround fun fuel heq => htick ⟨fuel, heq⟩ with haside | haside
          · exact .inl (congrArg Aside.buf haside)
          · exact .inr (congrArg Aside.buf haside)
        refine ⟨h.shares.synced hbuf, ?_⟩
        have hphys := h.phys
        rcases hbuf with hbuf | hbuf
        · exact (congrArg Pulsebuf.phys hbuf).trans hphys
        · exact (congrArg Pulsebuf.phys hbuf).trans hphys

end Threads

end Glowforge.Cnc
