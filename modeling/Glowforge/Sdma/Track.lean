import Glowforge.Sdma.Session
import Glowforge.Sdma.Walk

/-! A run byte by byte. Whatever ticks come, and whatever the host publishes, stores and
locks between them, the script plays one byte after another; in between it acknowledges
the timer, restarts, or parks. -/
namespace Glowforge.Sdma
open Foundation Engine

def HostAction.continues : HostAction → Bool
  | .tick _ | .publishTail _ | .setMotorLock _ | .store _ _ => true
  | .start _ _ _ _ | .clear _ _ => false

/-- The next byte is read here, or nothing follows. -/
def NextByte (es : List Event) : Prop := es = [] ∨ ∃ a b rest, es = .read a b :: rest

theorem NextByte.split {es fs pre post : List Event} (hnext : NextByte post)
    (hreads : reads es = []) (hsplit : es ++ fs = pre ++ post) :
    ∃ mid, pre = es ++ mid ∧ fs = mid ++ post := by
  rcases List.append_eq_append_iff.mp hsplit with ⟨mid, hpre, hfs⟩ | ⟨mid, hes, hpost⟩
  · exact ⟨mid, hpre, hfs⟩
  · have hmid : mid = [] := by
      cases mid with
      | nil => rfl
      | cons e mid =>
          rcases hnext with hend | ⟨a, b, rest, hread⟩
          · rw [hend] at hpost
            cases hpost
          · rw [hread] at hpost
            obtain ⟨rfl, -⟩ := List.cons_eq_cons.mp hpost
            rw [hes, reads_append] at hreads
            cases (List.append_eq_nil_iff.mp hreads).2
    subst hmid
    rw [List.append_nil] at hes
    exact ⟨[], by rw [hes, List.append_nil], hpost.symm⟩

theorem NextByte.split_byte {a : Word} {b : Byte} {es fs pre post : List Event}
    (hnext : NextByte post) (hreads : reads es = []) (hsplit : .read a b :: es ++ fs = pre ++ post) :
    pre = [] ∧ post = .read a b :: es ++ fs ∨ ∃ mid, pre = .read a b :: es ++ mid ∧ fs = mid ++ post := by
  cases pre with
  | nil => exact .inl ⟨rfl, hsplit.symm⟩
  | cons e pre =>
      obtain ⟨rfl, hrest⟩ := List.cons_eq_cons.mp hsplit
      obtain ⟨mid, rfl, hfs⟩ := hnext.split hreads hrest
      exact .inr ⟨mid, rfl, hfs⟩

namespace Player

/-- The steps between the bytes, with the motor locks that the host may set. -/
inductive Quiet (L : Word → Prop) : Phase → Player → List Event → Phase → Player → Prop where
  | ack {p : Player} : Quiet L .ready p [.write p.epit p.flags] .ready p
  | restart {ph : Phase} {p : Player} (hph : ph ≠ .ready) :
      Quiet L ph p [.write p.epit 1] .ready { p with flags := 1, pins := 0 }
  | park {p : Player} (hidle : p.idle) : Quiet L .ready p p.park.1 .parked p.park.2
  | publish {ph : Phase} {p : Player} (tail : Word) :
      Quiet L ph p [] ph { p with tail := tail }
  | lock {ph : Phase} {p : Player} {bits : Word} (hbits : L bits) :
      Quiet L ph p [] ph { p with lock := bits }
  | store {ph : Phase} {p : Player} (mem : Word → Byte) :
      Quiet L ph p [] ph { p with mem := mem }

/-- A stretch of a run: the states that its bytes are played from, and its events. -/
inductive Track (L : Word → Prop) :
    Phase → Player → List Player → List Event → Phase → Player → Prop where
  | done {ph : Phase} {p : Player} : Track L ph p [] [] ph p
  | quiet {ph ph' ph'' : Phase} {p q p' : Player} {qs : List Player} {es fs : List Event}
      (h : Quiet L ph p es ph' q) (rest : Track L ph' q qs fs ph'' p') :
      Track L ph p qs (es ++ fs) ph'' p'
  | byte {ph : Phase} {p p' : Player} {qs : List Player} {es : List Event} (hbusy : ¬p.idle)
      (rest : Track L .ready p.consume.2.settle qs es ph p') :
      Track L .ready p (p :: qs) (p.consume.1 ++ es) ph p'

variable {L : Word → Prop} {ph ph' ph'' : Phase} {p q p' : Player} {qs rs : List Player}
  {es fs : List Event}

theorem Quiet.reads_eq (h : Quiet L ph p es ph' q) : reads es = [] := by
  cases h with
  | park hidle => exact reads_park p
  | _ => rfl

theorem Track.append (h : Track L ph p qs es ph' q) (h' : Track L ph' q rs fs ph'' p') :
    Track L ph p (qs ++ rs) (es ++ fs) ph'' p' := by
  induction h with
  | done => exact h'
  | quiet hquiet _ ih =>
      rw [List.append_assoc]
      exact .quiet hquiet (ih h')
  | byte hbusy _ ih =>
      rw [List.append_assoc]
      exact .byte hbusy (ih h')

theorem Track.of_quiet (h : Quiet L ph p es ph' q) : Track L ph p [] es ph' q := by
  have htrack := Track.quiet h .done
  rwa [List.append_nil] at htrack

theorem track_of_drains {n : Nat} (h : Drains n p es ph p') :
    ∃ qs, Track L .ready p qs es ph p' := by
  induction h with
  | park hidle => exact ⟨[], .of_quiet (.park hidle)⟩
  | @last p hbusy hlast =>
      have htrack := Track.byte (L := L) hbusy .done
      rw [List.append_nil] at htrack
      exact ⟨[p], htrack⟩
  | @more n p p' es ph hbusy hmore rest ih =>
      obtain ⟨qs, hrest⟩ := ih
      exact ⟨p :: qs, .byte hbusy hrest⟩

theorem track_of_tick {n : Nat} (h : Tick n ph p es ph' p') :
    ∃ qs, Track L ph p qs es ph' p' := by
  cases h with
  | restart hph => exact ⟨[], .of_quiet (.restart hph)⟩
  | play hdrains =>
      obtain ⟨qs, hrest⟩ := track_of_drains hdrains
      exact ⟨qs, .quiet .ack hrest⟩

theorem Track.reads_eq (h : Track L ph p qs es ph' p') :
    reads es = qs.map fun q => (q.address, q.pulse) := by
  induction h with
  | done => rfl
  | @quiet ph ph' ph'' p q p' qs es fs hquiet _ ih =>
      rw [reads_append, hquiet.reads_eq, ih, List.nil_append]
  | @byte ph p p' qs es hbusy _ ih => rw [reads_append, reads_consume, ih, List.map_cons]; rfl

theorem Track.still (h : Track L ph p qs es ph' p') (hdir : p.dir = 0) : qs = [] ∧ p'.dir = 0 := by
  induction h with
  | done => exact ⟨rfl, hdir⟩
  | quiet hquiet _ ih =>
      apply ih
      cases hquiet with
      | park hidle => exact park_dir _
      | _ => exact hdir
  | byte hbusy _ _ => exact absurd (.inl hdir) hbusy

end Player

open Player

theorem track_of_execute {L : Word → Prop} {ph : Phase} {c : Config Label} (hw : ph.Waits c)
    {as : List HostAction} (has : ∀ a ∈ as, a.continues = true)
    (hlocks : ∀ bits, .setMotorLock bits ∈ as → L bits) {r : List Event × Config Label}
    (hexec : System.execute Config.host as c = some r) :
    ∃ qs ph', Track L ph c.m.player qs r.1 ph' r.2.m.player ∧ ph'.Waits r.2 := by
  induction as generalizing ph c r with
  | nil =>
      cases hexec
      exact ⟨[], ph, .done, hw⟩
  | cons a as ih =>
      obtain ⟨r₁, r₂, hfirst, hrest, rfl⟩ := System.execute_cons hexec
      have hcontinues := has a List.mem_cons_self
      have hone : ∃ qs ph', Track L ph c.m.player qs r₁.1 ph' r₁.2.m.player ∧ ph'.Waits r₁.2 := by
        cases a with
        | tick fuel =>
            obtain ⟨n, ph', htick, hw'⟩ := tick_of_exec hw hfirst
            obtain ⟨qs, htrack⟩ := track_of_tick htick
            exact ⟨qs, ph', htrack, hw'⟩
        | publishTail tail =>
            cases hfirst
            rw [player_publishTail]
            exact ⟨[], ph, .of_quiet (.publish tail), hw.withMachine rfl⟩
        | setMotorLock bits =>
            cases hfirst
            rw [player_setMotorLock]
            exact ⟨[], ph, .of_quiet (.lock (hlocks bits List.mem_cons_self)), hw.withMachine rfl⟩
        | store addr b =>
            cases hfirst
            exact ⟨[], ph, .of_quiet (.store _), hw.withMachine rfl⟩
        | start tail backward accelerate numSteps => cases hcontinues
        | clear data position => cases hcontinues
      obtain ⟨qs, ph', htrack, hw'⟩ := hone
      obtain ⟨rs, ph'', hrests, hw''⟩ := ih hw' (fun b hb => has b (List.mem_cons_of_mem a hb))
        (fun bits hb => hlocks bits (List.mem_cons_of_mem a hb)) hrest
      exact ⟨qs ++ rs, ph'', htrack.append hrests, hw''⟩

end Glowforge.Sdma
