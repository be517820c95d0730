import Glowforge.Sdma.Parking
import Glowforge.Sdma.Walk

/-! How long a tick can be. Each byte brings the head one cell nearer to the tail, so a
tick ends; a motion byte ends it, and so does a second power byte of a forward run. -/
namespace Glowforge.Sdma
open Foundation Engine

def motions (es : List Event) : List (Word × Byte) := (reads es).filter fun r => !bit r.2 7

@[simp] theorem motions_append (es fs : List Event) : motions (es ++ fs) = motions es ++ motions fs := by
  simp [motions]

namespace Player

/-- The masked distance from head to tail in the direction of the run. -/
def distance (p : Player) : Nat :=
  ((if p.backward then p.head - p.tail else p.tail - p.head) &&& p.mask).toNat

theorem distance_ne_zero {k : Nat} {p : Player} (hmask : IsMask k p.mask)
    (hmeet : p.head &&& p.mask ≠ p.tail &&& p.mask) :
    (if p.backward then p.head - p.tail else p.tail - p.head) &&& p.mask ≠ 0 := by
  have hapart (i j : Word) (h : i &&& p.mask ≠ j &&& p.mask) : (i - j) &&& p.mask ≠ 0 := by
    intro hzero
    apply h
    rw [hmask.and_eq_iff]
    have hdvd := (hmask.and_eq_iff (i - j) 0).mp (hzero.trans (BitVec.zero_and).symm)
    rwa [sub_zero] at hdvd
  split
  · exact hapart _ _ hmeet
  · exact hapart _ _ hmeet.symm

def Directed (p : Player) : Prop := p.dir = 1 ∨ p.dir = 0xFFFFFFFF

theorem distance_consume {k : Nat} {p : Player} (hmask : IsMask k p.mask) (hdir : p.Directed)
    (hmeet : p.head &&& p.mask ≠ p.tail &&& p.mask) :
    p.consume.2.settle.distance + 1 = p.distance := by
  have hhead : p.consume.2.settle.head = p.head + p.dir := consume_head p
  have hsame : p.consume.2.settle.dir = p.dir := consume_dir p
  have hsetup : p.consume.2.settle.setup = p.setup := consume_setup p
  have hm : p.consume.2.settle.mask = p.mask := congrArg Setup.mask hsetup
  have htail : p.consume.2.settle.tail = p.tail := congrArg Setup.tail hsetup
  have hfar := hmask.toNat_pred_and (distance_ne_zero hmask hmeet)
  have hnext : (if p.backward then p.head + p.dir - p.tail else p.tail - (p.head + p.dir)) =
      (if p.backward then p.head - p.tail else p.tail - p.head) - 1 := by
    rcases hdir with hdir | hdir
    · have hforward : p.backward = false := by
        rw [backward, hdir]
        decide
      rw [hforward, hdir]
      exact sub_add_eq_sub_sub p.tail p.head 1
    · have hback : p.backward = true := by
        rw [backward, hdir]
        decide
      rw [hback, hdir, if_pos rfl, if_pos rfl]
      bv_omega
  unfold distance
  rw [show p.consume.2.settle.backward = p.backward by rw [backward, hsame, backward], hhead, hm,
    htail, hnext]
  exact hfar

theorem drains_exists {k : Nat} {p : Player} (hmask : IsMask k p.mask) (hdir : p.Directed) :
    ∃ n es ph p', Drains n p es ph p' ∧ n ≤ p.distance := by
  -- the distance to the tail shrinks with every byte
  induction hd : p.distance generalizing p with
  | zero =>
      refine ⟨0, _, _, _, .park ?_, Nat.zero_le _⟩
      by_contra hbusy
      have hmeet := (not_idle_iff.mp hbusy).2.2
      have hstep := distance_consume hmask hdir hmeet
      omega
  | succ d ih =>
      by_cases hidle : p.idle
      · exact ⟨0, _, _, _, .park hidle, Nat.zero_le _⟩
      · cases hagain : p.consume.2.again with
        | false => exact ⟨1, _, _, _, .last hidle hagain, by omega⟩
        | true =>
            have hmeet := (not_idle_iff.mp hidle).2.2
            have hstep := distance_consume hmask hdir hmeet
            have hsetup : p.consume.2.settle.setup = p.setup := consume_setup p
            have hmask' : IsMask k p.consume.2.settle.mask := by
              rw [show p.consume.2.settle.mask = p.mask from congrArg Setup.mask hsetup]
              exact hmask
            have hdir' : p.consume.2.settle.Directed := by
              unfold Directed
              rw [show p.consume.2.settle.dir = p.dir from consume_dir p]
              exact hdir
            obtain ⟨n, es, ph, p', hrest, hn⟩ := ih hmask' hdir' (by omega)
            exact ⟨n + 1, _, ph, p', .more hidle hagain hrest, by omega⟩

theorem motions_consume (p : Player) :
    motions p.consume.1 = if bit p.pulse 7 then [] else [(p.address, p.pulse)] := by
  rw [motions, reads_consume]
  cases hbit : bit p.pulse 7 <;> simp [hbit]

theorem Drains.one_motion {n : Nat} {p p' : Player} {es : List Event} {ph : Phase}
    (h : Drains n p es ph p') (hagain : p.again = false) : (motions es).length ≤ 1 := by
  induction h with
  | @park p hidle => simp [motions, reads_park]
  | @last p hbusy hlast =>
      rw [motions_consume]
      split <;> simp
  | @more n p p' es ph hbusy hmore rest ih =>
      have hpower : bit p.pulse 7 = true := by
        by_contra hmotion
        rw [consume_again_of_motion (Bool.eq_false_iff.mpr hmotion) hagain] at hmore
        cases hmore
      rw [motions_append, motions_consume, if_pos hpower, List.nil_append]
      exact ih (again_settle _)

/-- With a power byte just applied, the next byte ends the tick. -/
theorem again_of_applied {p : Player} (hagain : p.again = false)
    (happlied : bit p.flags 1 = true) : p.consume.2.again = false := by
  unfold again at hagain ⊢
  rw [consume, endbyte_flags]
  unfold actOn power
  split
  · exact hagain
  · simp [motion, hagain]

theorem flags_of_again {p : Player} (hforward : p.backward = false) (hagain : p.again = false)
    (hmore : p.consume.2.again = true) : bit p.consume.2.settle.flags 1 = true := by
  unfold again at hagain hmore
  rw [settle, consume, endbyte_flags] at *
  unfold actOn power at *
  split at hmore
  · split at hmore
    · rw [hagain] at hmore
      cases hmore
    · rename_i hpower hfresh
      rw [if_pos hpower, if_neg hfresh, hforward]
      simp
  · simp [motion, hagain] at hmore

theorem Drains.two_bytes {n : Nat} {p p' : Player} {es : List Event} {ph : Phase}
    (h : Drains n p es ph p') (hforward : p.backward = false) (hagain : p.again = false) :
    n ≤ 2 := by
  cases h with
  | park hidle => omega
  | last hbusy hlast => omega
  | @more n p p' es ph hbusy hmore rest =>
      have happlied := flags_of_again hforward hagain hmore
      cases rest with
      | park hidle => omega
      | last hbusy hlast => omega
      | more hbusy' hmore' rest' =>
          rw [again_of_applied (again_settle _) happlied] at hmore'
          cases hmore'

theorem tick_exists {k : Nat} {ph : Phase} {c : Config Label} (hw : ph.Waits c)
    (hmask : IsMask k c.m.player.mask) (hdir : c.m.player.Directed) :
    ∃ n es ph' p', Tick n ph c.m.player es ph' p' ∧ n ≤ c.m.player.distance ∧
      (motions es).length ≤ 1 ∧ (c.m.player.dir = 1 → n ≤ 2) := by
  by_cases hph : ph = .ready
  · subst hph
    obtain ⟨n, es, ph', p', hdrains, hn⟩ := drains_exists hmask hdir
    have hagain : c.m.player.again = false := hw.2.1
    refine ⟨n, _, ph', p', .play hdrains, hn, ?_, ?_⟩
    · exact hdrains.one_motion hagain
    · intro hforward
      apply hdrains.two_bytes _ hagain
      rw [backward, hforward]
      decide
  · exact ⟨0, _, .ready, _, .restart hph, Nat.zero_le _, Nat.zero_le 1, fun _ => Nat.zero_le 2⟩

end Player

/-- A tick of a run comes to its `done` with no more bytes read than lie between head and
tail in its direction, one motion byte at most, and forward two bytes at most. -/
theorem tick_ends {args : ScriptArgs} {k : Nat} (hmask : IsMask k args.fifoBitmask)
    {c : Config Label} (hreach : System.Reachable Config.host (loadSdmaScript args) c)
    (hdir : c.m.word 30 = 1 ∨ c.m.word 30 = 0xFFFFFFFF) :
    ∃ es c', exec script.step (153 * c.m.player.distance + 158) c = some (es, c') ∧
      (reads es).length ≤ c.m.player.distance ∧ (motions es).length ≤ 1 ∧
      (c.m.word 30 = 1 → (reads es).length ≤ 2) := by
  obtain ⟨ph, hw⟩ := waits_host_reachable hreach
  have hmask' : IsMask k c.m.player.mask := by
    rw [show c.m.player.mask = args.fifoBitmask from
      congrArg Player.Wiring.mask (wiring_reachable hreach)]
    exact hmask
  obtain ⟨n, es, ph', p', htick, hn, hone, htwo⟩ := Player.tick_exists hw hmask' hdir
  obtain ⟨c', hexec, -⟩ := exec_of_tick htick hw rfl
  have hreads : (reads es).length = n := by
    rw [htick.walked.reads]
    simp [Player.cells]
  refine ⟨es, c', exec_mono hexec (by omega), ?_, hone, ?_⟩
  · rw [hreads]
    exact hn
  · rw [hreads]
    exact htwo

private def powers : ScriptArgs := .over fun _ => 0x80

/-- A backward run over it skips them all in one tick. -/
theorem tick_ends_skipping :
    ∃ c es c', System.Reachable Config.host (loadSdmaScript powers) c ∧
      c.m.player.distance = 3 ∧ exec script.step 617 c = some (es, c') ∧
      (reads es).length ≤ 3 ∧ (motions es).length ≤ 1 := by
  have hrun : (System.execute Config.host [.start 0xFFFFFFFD true false 0, .tick 100]
      (loadSdmaScript powers)).map (fun r => (r.2.m.word 30, r.2.m.player.distance)) =
      some (0xFFFFFFFF, 3) := by decide +kernel
  obtain ⟨⟨out, c⟩, hexec, hseen⟩ := Option.map_eq_some_iff.mp hrun
  injection hseen with hdir hdistance
  have hreach : System.Reachable Config.host (loadSdmaScript powers) c := ⟨_, out, hexec⟩
  obtain ⟨es, c', htick, hreads, hone, -⟩ :=
    tick_ends (k := 20) ⟨by decide, by decide⟩ hreach (.inr hdir)
  rw [hdistance] at htick hreads
  exact ⟨c, es, c', hreach, hdistance, htick, hreads, hone⟩

end Glowforge.Sdma
