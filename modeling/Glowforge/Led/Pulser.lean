import Glowforge.Led.Smooth
import Mathlib.Data.List.Chain

/-! The pulser. Its counter stays within the two periods, whatever is written to them, and
while they stay as they are it switches the target in turn. -/
namespace Glowforge.Led
open Foundation.System

/-- The periods are what an attribute can hold, and the counter lies within them. -/
structure Pulser (d : SmoothData) : Prop where
  on_bounds : 0 ≤ d.pulseOnCount ∧ d.pulseOnCount ≤ 214748364
  off_bounds : 0 ≤ d.pulseOffCount ∧ d.pulseOffCount ≤ 214748364
  counter : d.pulsing = true → -d.pulseOffCount ≤ d.pulseCounter ∧ d.pulseCounter ≤ d.pulseOnCount
  idle : d.pulsing = false → d.pulseCounter = 0

namespace SmoothData

theorem pulseCount_bounds (n : ULong) : 0 ≤ pulseCount n ∧ pulseCount n ≤ 214748364 := by
  have hlt := n.isLt
  have hexact : pulseCount n = (n.toNat / 20 : Nat) := by
    apply s32_of_inRange
    unfold InRange
    unfold msecsPerUpdate
    omega
  omega

theorem pulse_cases {d : SmoothData} (hp : d.pulsing = true) (hinv : Pulser d) :
    (d.pulseCounter = 0 ∧ d.pulse = [.pulse (fixedInt 255)] ∧ d.updatePulser.pulseCounter = 1) ∨
    (d.pulseCounter = d.pulseOnCount ∧ d.pulse = [.pulse (fixedInt 0)] ∧
      d.updatePulser.pulseCounter = 1 - d.pulseOffCount) ∨
    (d.pulseCounter ≠ 0 ∧ d.pulseCounter ≠ d.pulseOnCount ∧ d.pulse = [] ∧
      d.updatePulser.pulseCounter = d.pulseCounter + 1) := by
  obtain ⟨hlow, hhigh⟩ := hinv.counter hp
  have hon := hinv.on_bounds
  have hoff := hinv.off_bounds
  unfold pulse updatePulser
  rw [if_pos hp, if_pos hp]
  by_cases hzero : d.pulseCounter = 0
  · refine .inl ⟨hzero, if_pos hzero, ?_⟩
    simp only [switch, if_pos hzero]
    rw [hzero]
    exact s32_of_inRange (by decide)
  · by_cases htop : d.pulseCounter = d.pulseOnCount
    · refine .inr (.inl ⟨htop, by rw [if_neg hzero, if_pos htop], ?_⟩)
      simp only [switch, if_neg hzero, if_pos htop]
      rw [s32_of_inRange (x := -d.pulseOffCount) (by unfold InRange; omega),
        s32_of_inRange (by unfold InRange; omega)]
      omega
    · refine .inr (.inr ⟨hzero, htop, by rw [if_neg hzero, if_neg htop], ?_⟩)
      simp only [switch, if_neg hzero, if_neg htop]
      exact s32_of_inRange (by unfold InRange; omega)

theorem updatePulser_counts (d : SmoothData) :
    d.updatePulser.pulseOnCount = d.pulseOnCount ∧
      d.updatePulser.pulseOffCount = d.pulseOffCount := by
  unfold updatePulser switch
  split_ifs <;> exact ⟨rfl, rfl⟩

theorem timestepLocked_pulser (d : SmoothData) :
    d.timestepLocked.2.pulseOnCount = d.pulseOnCount ∧
      d.timestepLocked.2.pulseOffCount = d.pulseOffCount ∧
      d.timestepLocked.2.pulseCounter = d.updatePulser.pulseCounter := by
  obtain ⟨hon, hoff⟩ := d.updatePulser_counts
  unfold timestepLocked
  split <;> exact ⟨hon, hoff, rfl⟩

theorem pulsing_congr {d d' : SmoothData} (hon : d'.pulseOnCount = d.pulseOnCount)
    (hoff : d'.pulseOffCount = d.pulseOffCount) : d'.pulsing = d.pulsing := by
  unfold pulsing
  rw [hon, hoff]

theorem timestepLocked_of_pulsing {d : SmoothData} (hp : d.pulsing = true) :
    d.timestepLocked = (d.pulse ++ [.ledSetBrightness d.moved.brightness, .modTimer],
      { d.moved with timer := true }) := by
  apply timestepLocked_moving
  obtain ⟨hon, hoff⟩ := d.updatePulser_counts
  have hmoved : d.moved.pulsing = true := (pulsing_congr hon hoff).trans hp
  unfold arrived
  rw [hmoved, Bool.not_true, Bool.and_false]

end SmoothData

open SmoothData

theorem Pulser.smoothActivate (brightness : Nat) :
    Pulser (SmoothData.smoothActivate brightness) where
  on_bounds := by simp [SmoothData.smoothActivate]
  off_bounds := by simp [SmoothData.smoothActivate]
  counter := nofun
  idle := fun _ => rfl

theorem repairedCounter_bounds {counter on off : Int} (hon : 0 < on) (hoff : 0 < off)
    (honmax : on ≤ 214748364) (hoffmax : off ≤ 214748364) :
    -off ≤ repairedCounter counter on off ∧ repairedCounter counter on off ≤ on := by
  have hneg : s32 (-off) = -off := s32_of_inRange (by unfold InRange; omega)
  have hless : s32 (off - 1) = off - 1 := s32_of_inRange (by unfold InRange; omega)
  have hback : s32 (-(off - 1)) = -(off - 1) := s32_of_inRange (by unfold InRange; omega)
  unfold repairedCounter
  rw [hless, hneg, hback]
  split_ifs <;> omega

theorem Pulser.setPulsePeriods {d : SmoothData} {on off : Int}
    (hon : 0 ≤ on ∧ on ≤ 214748364) (hoff : 0 ≤ off ∧ off ≤ 214748364) :
    Pulser (d.setPulsePeriods on off) where
  on_bounds := hon
  off_bounds := hoff
  counter := by
    intro hp
    obtain ⟨hon', hoff'⟩ := (pulsing_iff _).mp hp
    have hset : ¬ (on = 0 ∨ off = 0) := not_or.mpr ⟨hon', hoff'⟩
    simp only [SmoothData.setPulsePeriods, if_neg hset]
    exact repairedCounter_bounds (by omega) (by omega) hon.2 hoff.2
  idle := by
    intro hp
    have hunset : on = 0 ∨ off = 0 := by
      by_contra hset
      rw [(pulsing_iff (d.setPulsePeriods on off)).mpr (not_or.mp hset)] at hp
      contradiction
    simp only [SmoothData.setPulsePeriods, if_pos hunset]

theorem setPulsePeriods_same {d : SmoothData} (hinv : Pulser d) (hp : d.pulsing = true) :
    (d.setPulsePeriods d.pulseOnCount d.pulseOffCount).pulseCounter = d.pulseCounter := by
  obtain ⟨hlow, hhigh⟩ := hinv.counter hp
  obtain ⟨hon, hoff⟩ := (pulsing_iff d).mp hp
  have hoffmax := hinv.off_bounds
  have hneg : s32 (-d.pulseOffCount) = -d.pulseOffCount :=
    s32_of_inRange (by unfold InRange; omega)
  simp only [SmoothData.setPulsePeriods, if_neg (not_or.mpr ⟨hon, hoff⟩), repairedCounter]
  rw [hneg, if_neg (by omega), if_neg (by omega)]

theorem Pulser.congr {d d' : SmoothData} (h : Pulser d) (hon : d'.pulseOnCount = d.pulseOnCount)
    (hoff : d'.pulseOffCount = d.pulseOffCount) (hcounter : d'.pulseCounter = d.pulseCounter) :
    Pulser d' := by
  have hp := pulsing_congr hon hoff
  refine ⟨?_, ?_, ?_, ?_⟩
  · rw [hon]
    exact h.on_bounds
  · rw [hoff]
    exact h.off_bounds
  · rw [hp, hon, hoff, hcounter]
    exact h.counter
  · rw [hp, hcounter]
    exact h.idle

theorem Sets.pulser {d d' : SmoothData} {e : Event} (h : Sets d e d') (hinv : Pulser d) :
    Pulser d' := by
  cases h with
  | target n h => exact hinv.congr rfl rfl rfl
  | speed n h hmax => exact hinv.congr rfl rfl rfl
  | pulseOn n =>
      have hbounds := pulseCount_bounds n
      exact Pulser.setPulsePeriods hbounds hinv.off_bounds
  | pulseOff n => exact .setPulsePeriods hinv.on_bounds (pulseCount_bounds n)
  | timer h => exact hinv.congr rfl rfl rfl

theorem Pulser.timestepLocked {d : SmoothData} (hinv : Pulser d) : Pulser d.timestepLocked.2 := by
  obtain ⟨hon, hoff, hcounter⟩ := d.timestepLocked_pulser
  have hpulsing := pulsing_congr hon hoff
  refine ⟨by rw [hon]; exact hinv.on_bounds, by rw [hoff]; exact hinv.off_bounds, ?_, ?_⟩
  · rw [hpulsing, hon, hoff, hcounter]
    intro hp
    have hbounds := hinv.counter hp
    obtain ⟨honset, hoffset⟩ := (pulsing_iff d).mp hp
    have honpos := hinv.on_bounds
    have hoffpos := hinv.off_bounds
    rcases pulse_cases hp hinv with ⟨_, _, h⟩ | ⟨_, _, h⟩ | ⟨_, htop, _, h⟩ <;> omega
  · rw [hpulsing, hcounter]
    intro hp
    unfold updatePulser
    rw [if_neg (by rw [hp]; exact Bool.false_ne_true)]
    exact hinv.idle hp

structure Pulsing (d : SmoothData) : Prop extends Pulser d where
  timer : d.pulsing = true → d.timer = true

theorem Pulser.pulsing_timestepLocked {d : SmoothData} (hinv : Pulser d) :
    Pulsing d.timestepLocked.2 where
  toPulser := hinv.timestepLocked
  timer := by
    intro hp
    obtain ⟨hon, hoff, _⟩ := d.timestepLocked_pulser
    rw [pulsing_congr hon hoff] at hp
    rw [timestepLocked_of_pulsing hp]

theorem Pulsing.kept {d : SmoothData} {e : Event} {r : List Obs × SmoothData} (hinv : Pulsing d)
    (h : step d e = some r) : Pulsing r.2 := by
  rcases step_cases h with ⟨d', hsets, rfl⟩ | ⟨d', hsets, hidle, rfl, _⟩ | ⟨err, rfl⟩
  · exact (hsets.pulser hinv.toPulser).pulsing_timestepLocked
  · refine ⟨hsets.pulser hinv.toPulser, ?_⟩
    intro hp
    rw [hidle] at hp
    contradiction
  · exact hinv

def KeepsPeriods (d : SmoothData) (e : Event) : Prop :=
  ∀ r, step d e = some r →
    r.2.pulseOnCount = d.pulseOnCount ∧ r.2.pulseOffCount = d.pulseOffCount

theorem Sets.keeps {d d' : SmoothData} {e : Event} (h : Sets d e d') (hinv : Pulser d)
    (hp : d.pulsing = true) (hon : d'.pulseOnCount = d.pulseOnCount)
    (hoff : d'.pulseOffCount = d.pulseOffCount) : d'.pulseCounter = d.pulseCounter := by
  cases h with
  | target n h => rfl
  | speed n h hmax => rfl
  | pulseOn n =>
      rw [setPulsePeriods_pulseOnCount] at hon
      have hcounter := setPulsePeriods_same hinv hp
      rwa [← hon] at hcounter
  | pulseOff n =>
      rw [setPulsePeriods_pulseOffCount] at hoff
      have hcounter := setPulsePeriods_same hinv hp
      rwa [← hoff] at hcounter
  | timer h => rfl

theorem step_keeps {d : SmoothData} {e : Event} {r : List Obs × SmoothData} (hinv : Pulsing d)
    (hp : d.pulsing = true) (hkeeps : KeepsPeriods d e) (h : step d e = some r) :
    (∃ err, r = ([.failed err], d)) ∨
    ∃ d', r = d'.timestepLocked ∧ Pulser d' ∧ d'.pulsing = true ∧
      d'.pulseOnCount = d.pulseOnCount ∧ d'.pulseOffCount = d.pulseOffCount ∧
      d'.pulseCounter = d.pulseCounter := by
  obtain ⟨hon, hoff⟩ := hkeeps r h
  rcases step_cases h with ⟨d', hsets, rfl⟩ | ⟨d', hsets, hidle, rfl, _⟩ | herr
  · obtain ⟨hon', hoff', _⟩ := d'.timestepLocked_pulser
    rw [hon'] at hon
    rw [hoff'] at hoff
    exact .inr ⟨d', rfl, hsets.pulser hinv.toPulser, (pulsing_congr hon hoff).trans hp, hon, hoff,
      hsets.keeps hinv.toPulser hp hon hoff⟩
  · rw [pulsing_congr hon hoff, hp] at hidle
    contradiction
  · exact .inl herr

/-- The target that was set, if that is what is shown. -/
def Obs.pulsed : Obs → List Fixed
  | .pulse target => [target]
  | _ => []

/-- One for each run of `timestep_locked`, which always sets the brightness. -/
def Obs.timesteps : Obs → Nat
  | .ledSetBrightness _ => 1
  | _ => 0

def timesteps (out : List Obs) : Nat := (out.map Obs.timesteps).sum

inductive PulseStep (d : SmoothData) (r : List Obs × SmoothData) : Prop where
  | failed (hpulsed : r.1.flatMap Obs.pulsed = []) (htime : timesteps r.1 = 0)
      (hcounter : r.2.pulseCounter = d.pulseCounter)
  | high (hzero : d.pulseCounter = 0) (hpulsed : r.1.flatMap Obs.pulsed = [fixedInt 255])
      (htime : timesteps r.1 = 1) (hcounter : r.2.pulseCounter = 1)
  | low (htop : d.pulseCounter = d.pulseOnCount) (hpulsed : r.1.flatMap Obs.pulsed = [fixedInt 0])
      (htime : timesteps r.1 = 1) (hcounter : r.2.pulseCounter = 1 - d.pulseOffCount)
  | count (hzero : d.pulseCounter ≠ 0) (htop : d.pulseCounter ≠ d.pulseOnCount)
      (hpulsed : r.1.flatMap Obs.pulsed = []) (htime : timesteps r.1 = 1)
      (hcounter : r.2.pulseCounter = d.pulseCounter + 1)

theorem pulseStep_of_keeps {d : SmoothData} {e : Event} {r : List Obs × SmoothData}
    (hinv : Pulsing d) (hp : d.pulsing = true) (hkeeps : KeepsPeriods d e)
    (h : step d e = some r) : PulseStep d r := by
  rcases step_keeps hinv hp hkeeps h with ⟨err, rfl⟩ | ⟨d', rfl, hinv', hp', hon, hoff, hcounter⟩
  · exact .failed rfl rfl rfl
  · obtain ⟨_, _, hnext⟩ := d'.timestepLocked_pulser
    have hout : d'.timestepLocked.1 =
        d'.pulse ++ [.ledSetBrightness d'.moved.brightness, .modTimer] := by
      rw [timestepLocked_of_pulsing hp']
    rcases pulse_cases hp' hinv' with ⟨hzero, hpulse, h⟩ | ⟨htop, hpulse, h⟩ |
      ⟨hzero, htop, hpulse, h⟩
    · refine .high (hcounter ▸ hzero) ?_ ?_ (hnext.trans h) <;> rw [hout, hpulse] <;> rfl
    · refine .low (hcounter ▸ hon ▸ htop) ?_ ?_ (hoff ▸ hnext.trans h) <;> rw [hout, hpulse] <;> rfl
    · refine .count (hcounter ▸ hzero) (hcounter ▸ hon ▸ htop) ?_ ?_ (hcounter ▸ hnext.trans h) <;>
        rw [hout, hpulse] <;> rfl

structure Kept (on off : Int) (d : SmoothData) : Prop extends Pulsing d where
  on_pos : 0 < on
  off_pos : 0 < off
  on_eq : d.pulseOnCount = on
  off_eq : d.pulseOffCount = off

theorem Kept.pulsing {on off : Int} {d : SmoothData} (h : Kept on off d) : d.pulsing = true := by
  have hon := h.on_pos
  have hoff := h.off_pos
  rw [pulsing_iff, h.on_eq, h.off_eq]
  omega

theorem Kept.kept {on off : Int} {d : SmoothData} {e : Event} {r : List Obs × SmoothData}
    (hkept : Kept on off d) (hkeeps : KeepsPeriods d e) (h : step d e = some r) :
    Kept on off r.2 := by
  obtain ⟨hon, hoff⟩ := hkeeps r h
  exact ⟨hkept.toPulsing.kept h, hkept.on_pos, hkept.off_pos, hon.trans hkept.on_eq,
    hoff.trans hkept.off_eq⟩

theorem Kept.counter_bounds {on off : Int} {d : SmoothData} (h : Kept on off d) :
    -off ≤ d.pulseCounter ∧ d.pulseCounter ≤ on := by
  have hbounds := h.counter h.pulsing
  rwa [h.on_eq, h.off_eq] at hbounds

/-- The targets set are the two ends, and no two in a row are the same. -/
structure Alternates (targets : List Fixed) : Prop where
  ends : ∀ t ∈ targets, t = fixedInt 0 ∨ t = fixedInt 255
  chain : targets.IsChain (· ≠ ·)

/-- The last target set tells on which side the counter is. -/
structure Sided (on off : Int) (targets : List Fixed) (d : SmoothData) : Prop extends
    Kept on off d, Alternates targets where
  high : targets.getLast? = some (fixedInt 255) → 1 ≤ d.pulseCounter
  low : targets.getLast? = some (fixedInt 0) → d.pulseCounter ≤ 0

theorem Sided.begin {on off : Int} {d : SmoothData} (h : Kept on off d) : Sided on off [] d where
  toKept := h
  ends := by simp
  chain := .nil
  high := by simp
  low := by simp

theorem fixedInt_ends_ne : fixedInt 0 ≠ fixedInt 255 := by decide

theorem Sided.kept {on off : Int} {targets : List Fixed} {d : SmoothData} {e : Event}
    {r : List Obs × SmoothData} (hside : Sided on off targets d) (hkeeps : KeepsPeriods d e)
    (h : step d e = some r) : Sided on off (targets ++ r.1.flatMap Obs.pulsed) r.2 := by
  have hkept := hside.toKept.kept hkeeps h
  have hbounds := hside.toKept.counter_bounds
  cases pulseStep_of_keeps hside.toPulsing hside.toKept.pulsing hkeeps h with
  | failed hpulsed htime hcounter =>
      rw [hpulsed, List.append_nil]
      exact ⟨hkept, hside.toAlternates, hcounter ▸ hside.high, hcounter ▸ hside.low⟩
  | count hzero htop hpulsed htime hcounter =>
      rw [hpulsed, List.append_nil]
      refine ⟨hkept, hside.toAlternates, ?_, ?_⟩
      · intro hlast
        have hhigh := hside.high hlast
        omega
      · intro hlast
        have hlow := hside.low hlast
        omega
  | high hzero hpulsed htime hcounter =>
      rw [hpulsed]
      refine ⟨hkept, ⟨?_, ?_⟩, fun _ => hcounter.ge, ?_⟩
      · intro t ht
        rcases List.mem_append.mp ht with hold | hnew
        · exact hside.ends t hold
        · exact .inr (List.mem_singleton.mp hnew)
      · refine List.isChain_append.mpr ⟨hside.chain, .singleton _, ?_⟩
        intro x hx y hy
        cases hy
        rintro rfl
        have hhigh := hside.high hx
        omega
      · intro hlast
        rw [List.getLast?_concat] at hlast
        exact absurd (Option.some.inj hlast).symm fixedInt_ends_ne
  | low htop hpulsed htime hcounter =>
      rw [hpulsed]
      have hon := hside.on_pos
      have hoff := hside.off_pos
      refine ⟨hkept, ⟨?_, ?_⟩, ?_, ?_⟩
      · intro t ht
        rcases List.mem_append.mp ht with hold | hnew
        · exact hside.ends t hold
        · exact .inl (List.mem_singleton.mp hnew)
      · refine List.isChain_append.mpr ⟨hside.chain, .singleton _, ?_⟩
        intro x hx y hy
        cases hy
        rintro rfl
        have hlow := hside.low hx
        rw [htop, hside.on_eq] at hlow
        omega
      · intro hlast
        rw [List.getLast?_concat] at hlast
        exact absurd (Option.some.inj hlast) fixedInt_ends_ne
      · intro _
        rw [hcounter, hside.off_eq]
        omega

/-- Until this target is set, the counter goes up from `start`, and no further than `top`. -/
structure Counting (on off start top : Int) (t : Fixed) (out : List Obs) (d : SmoothData) :
    Prop extends Kept on off d where
  counts : t ∈ out.flatMap Obs.pulsed ∨
    d.pulseCounter = start + timesteps out ∧ d.pulseCounter ≤ top

theorem Counting.begin {on off top : Int} {d : SmoothData} (t : Fixed) (h : Kept on off d)
    (htop : d.pulseCounter ≤ top) : Counting on off d.pulseCounter top t [] d :=
  ⟨h, .inr ⟨(Int.add_zero _).symm, htop⟩⟩

theorem Counting.set {on off start top : Int} {t : Fixed} {out : List Obs} {d : SmoothData}
    (h : Counting on off start top t out d) (hlong : top - start < timesteps out) :
    t ∈ out.flatMap Obs.pulsed := by
  rcases h.counts with hset | ⟨hup, htop⟩
  · exact hset
  · omega

end Glowforge.Led
