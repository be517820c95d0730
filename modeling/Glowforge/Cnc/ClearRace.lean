import Glowforge.Cnc.Waypoint
import Glowforge.Foundation.Ledger

/-! A data clear and the readers that take no lock. `cnc_buffer_clear` resets the indices
of the kfifo and reads them back for the script; a reader of the free space and a start
that looks for data copy the script's head to `kfifo.out` meanwhile. Here each access to
an index is a step of its own, and each context transfer. -/
namespace Glowforge.Cnc
open Foundation Sdma

/-- The load of a data clear: the byte count, and the indices as they were read back. -/
def Pulsebuf.loadIndices (b : Pulsebuf) (position : Bool) (head tail : Word) : Pulsebuf :=
  let m := b.engine.m
  let m := if position then ((m.setWord 24 0).setWord 25 0).setWord 26 0 else m
  { b with engine := b.engine.withMachine (((m.setWord 27 0).setWord 28 head).setWord 29 tail) }

theorem Pulsebuf.loadIndices_ends (b : Pulsebuf) (position : Bool) (head tail : Word) :
    (b.loadIndices position head tail).player.head = head ∧
      (b.loadIndices position head tail).player.tail = tail := by
  cases position <;>
    simp [loadIndices, Pulsebuf.player, Machine.player, Config.withMachine, Machine.word, Machine.setWord]

def Pulsebuf.setOut (b : Pulsebuf) (i : Word) : Pulsebuf :=
  { b with fifo := { b.fifo with outIndex := i } }

/-- Where `cnc_buffer_clear` stands when it clears the data. -/
inductive DropPc where
  | resetOut
  | resetIn
  | readOut
  | readIn (head : Word)
  | load (head tail : Word)
  deriving DecidableEq, Repr

/-- Where `cnc_buffer_sync_head` stands, or what follows it. -/
inductive ReadPc where
  | fetch
  | store (head : Word)
  | readIn
  | readOut (inIndex : Word)
  deriving DecidableEq, Repr

/-- Who reads outside the lock: `cnc_buffer_get_free_space`, or `cnc_buffer_is_empty` for
a start. -/
inductive Reader where
  | free
  | start (opts : CncRunOptions) (gen : Word)
  deriving DecidableEq, Repr

/-- A thread: at a section of a call, or at an access of one of the two functions. -/
inductive Access where
  | call (c : Call)
  | drop (position : Bool) (pc : DropPc)
  | read (reader : Reader) (pc : ReadPc)
  deriving DecidableEq, Repr

inductive AccessMove where
  | call (move : Move)
  | free
  deriving DecidableEq, Repr

inductive Shown where
  | notice (n : Notice)
  | freeSpace (bytes : Word)
  deriving DecidableEq, Repr

namespace Access

abbrev Outcome := List Shown × Driver × Access

/-- `cnc_buffer_clear` with the data flag, under `pulsebuf_lock`. -/
def stepDrop (d : Driver) (position ok : Bool) : DropPc → Outcome
  | .resetOut => ([], { d with buf := d.buf.setOut 0 }, .drop position .resetIn)
  | .resetIn => ([], { d with buf := d.buf.setIn 0 }, .drop position .readOut)
  | .readOut => ([], d, .drop position (.readIn d.buf.fifo.outIndex))
  | .readIn head =>
      ([], { d with buf := { d.buf with totalBytes := 0 } },
        .drop position (.load head d.buf.fifo.inIndex))
  | .load head tail =>
      if ok then
        ([], { d with buf := d.buf.loadIndices position head tail },
          .call (.clear true position (.leave none)))
      else ([], d, .call (.clear true position (.leave (some .ESDMA))))

/-- `cnc_buffer_get_free_space` and `cnc_buffer_is_empty`; the first goes on without a
fresh head, for the second that is an empty ring. -/
def stepRead (d : Driver) (reader : Reader) (ok : Bool) : ReadPc → Outcome
  | .fetch =>
      if ok then ([], d, .read reader (.store d.buf.player.head))
      else
        match reader with
        | .free => ([], d, .read .free .readIn)
        | .start _ _ => ([.notice (.returned (some .ENODATA))], d, .call .idle)
  | .store head => ([], { d with buf := d.buf.setOut head }, .read reader .readIn)
  | .readIn => ([], d, .read reader (.readOut d.buf.fifo.inIndex))
  | .readOut inIndex =>
      match reader with
      | .free =>
          let avail := d.buf.fifo.size - (inIndex - d.buf.fifo.outIndex)
          ([.freeSpace (if avail > cncBufferGapSize then avail - cncBufferGapSize else 0)], d,
            .call .idle)
      | .start opts gen =>
          if inIndex = d.buf.fifo.outIndex then
            ([.notice (.returned (some .ENODATA))], d, .call .idle)
          else ([], d, .call (.start opts (.verify gen)))

def next (i : Nat) (d : Driver) : Access → AccessMove → Option Outcome
  | .call .idle, .free => some ([], d, .read .free .fetch)
  | .call (.start opts (.empty gen)), .call (.next _) => some ([], d, .read (.start opts gen) .fetch)
  | .call (.clear true position .clear), .call (.next _) => some ([], d, .drop position .resetOut)
  | .call c, .call move => (c.next i d move).map fun r => (r.1.map .notice, r.2.1, .call r.2.2)
  | .drop position pc, .call (.next ok) => some (stepDrop d position ok pc)
  | .read reader pc, .call (.next ok) => some (stepRead d reader ok pc)
  | _, _ => none

/-- Around the threads: all but the reader of the free space, which is a thread here. -/
def around (d : Driver) : Surrounding → Option (List Shown × Driver)
  | .free _ => none
  | event => (d.around event).map fun r => (r.1.map .notice, r.2)

end Access

def Access.holds : Access → Bool
  | .call c => c.holds
  | .drop _ _ => true
  | .read _ _ => false

def Access.dropping : Access → Bool
  | .call (.clear data _ pc) => decide (pc = .clear) && data
  | .drop _ _ => true
  | _ => false

def Access.loaded : Access → Bool
  | .call (.start _ pc) => pc.loaded
  | _ => false

namespace Access

variable {i : Nat} {d d' : Driver} {p p' : Access} {move : AccessMove}

inductive Step (i : Nat) (d : Driver) : Access → AccessMove → Driver → Access → Prop where
  | onward {c : Call} {move : Move} {r : List Notice × Driver × Call} (hnext : c.next i d move = some r)
      (hwhole : ∀ position, c ≠ .clear true position .clear)
      (htest : ∀ opts gen, c ≠ .start opts (.empty gen)) :
      Step i d (.call c) (.call move) r.2.1 (.call r.2.2)
  | asks : Step i d (.call .idle) .free d (.read .free .fetch)
  | tests {opts : CncRunOptions} {gen : Word} {ok : Bool} :
      Step i d (.call (.start opts (.empty gen))) (.call (.next ok)) d (.read (.start opts gen) .fetch)
  | drops {position ok : Bool} :
      Step i d (.call (.clear true position .clear)) (.call (.next ok)) d (.drop position .resetOut)
  | resetOut {position ok : Bool} : Step i d (.drop position .resetOut) (.call (.next ok))
      { d with buf := d.buf.setOut 0 } (.drop position .resetIn)
  | resetIn {position ok : Bool} : Step i d (.drop position .resetIn) (.call (.next ok))
      { d with buf := d.buf.setIn 0 } (.drop position .readOut)
  | readOut {position ok : Bool} : Step i d (.drop position .readOut) (.call (.next ok)) d
      (.drop position (.readIn d.buf.fifo.outIndex))
  | readIn {position ok : Bool} {head : Word} :
      Step i d (.drop position (.readIn head)) (.call (.next ok))
        { d with buf := { d.buf with totalBytes := 0 } }
        (.drop position (.load head d.buf.fifo.inIndex))
  | loaded {position : Bool} {head tail : Word} :
      Step i d (.drop position (.load head tail)) (.call (.next true))
        { d with buf := d.buf.loadIndices position head tail }
        (.call (.clear true position (.leave none)))
  | unloaded {position : Bool} {head tail : Word} :
      Step i d (.drop position (.load head tail)) (.call (.next false)) d
        (.call (.clear true position (.leave (some .ESDMA))))
  | stored {reader : Reader} {head : Word} {ok : Bool} :
      Step i d (.read reader (.store head)) (.call (.next ok)) { d with buf := d.buf.setOut head }
        (.read reader .readIn)
  | looked {reader : Reader} {pc : ReadPc} {ok : Bool} {p' : Access} (hp' : p'.holds = false) :
      Step i d (.read reader pc) (.call (.next ok)) d p'

private theorem step_of_stepRead (d : Driver) (reader : Reader) (ok : Bool) (pc : ReadPc) :
    Step i d (.read reader pc) (.call (.next ok)) (stepRead d reader ok pc).2.1
      (stepRead d reader ok pc).2.2 := by
  cases pc with
  | fetch =>
      cases ok with
      | true => exact .looked rfl
      | false => cases reader <;> exact .looked rfl
  | store head => exact .stored
  | readIn => exact .looked rfl
  | readOut inIndex =>
      cases reader with
      | free => exact .looked rfl
      | start opts gen =>
          unfold stepRead
          dsimp only
          split <;> exact .looked rfl

private theorem step_of_stepDrop (d : Driver) (position ok : Bool) (pc : DropPc) :
    Step i d (.drop position pc) (.call (.next ok)) (stepDrop d position ok pc).2.1
      (stepDrop d position ok pc).2.2 := by
  cases pc with
  | resetOut => exact .resetOut
  | resetIn => exact .resetIn
  | readOut => exact .readOut
  | readIn head => exact .readIn
  | load head tail =>
      cases ok with
      | true => exact .loaded
      | false => exact .unloaded

theorem step_of_next {r : Outcome} (h : p.next i d move = some r) :
    Step i d p move r.2.1 r.2.2 := by
  unfold next at h
  split at h
  · cases h
    exact .asks
  · cases h
    exact .tests
  · cases h
    exact .drops
  · rename_i c move hempty hclear
    obtain ⟨q, hq, rfl⟩ := Option.map_eq_some_iff.mp h
    apply Step.onward hq
    · rintro position rfl
      cases move <;> first | cases hq | exact hclear position _ rfl rfl
    · rintro opts gen rfl
      cases move <;> first | cases hq | exact hempty opts gen _ rfl rfl
  · cases h
    exact step_of_stepDrop d _ _ _
  · cases h
    exact step_of_stepRead d _ _ _
  · cases h

/-! What a step leaves to the others. -/

theorem holds_of_dropping (h : p.dropping = true) : p.holds = true := by
  cases p with
  | call c =>
      cases c with
      | clear data position pc => cases pc <;> first | rfl | cases h
      | _ => cases h
  | drop position pc => rfl
  | read reader pc => cases h

theorem holds_of_loaded (h : p.loaded = true) : p.holds = true := by
  cases p with
  | call c =>
      cases c with
      | start opts pc => cases pc <;> first | rfl | cases h
      | _ => cases h
  | _ => cases h

theorem Step.uses (h : Step i d p move d' p') :
    Pool.MutexUse i d.pulsebufLock p.holds d'.pulsebufLock p'.holds := by
  cases h with
  | onward hnext hwhole htest => exact (Call.nextStep_of_next hnext).uses
  | looked hp' =>
      rw [hp']
      exact .keep
  | _ => exact .keep

/-- The run control sees the sections of the calls, and none of the accesses. -/
theorem Step.simulated (h : Step i d p move d' p') : ∃ o, Driver.Simulated o d d' := by
  cases h with
  | onward hnext hwhole htest => exact ⟨_, Driver.next_simulated hnext⟩
  | _ => exact ⟨[], Driver.simulated_keep rfl rfl⟩

/-- Outside the lock a thread commits nothing, and does nothing to the ring but store a
head that it has fetched. -/
theorem Step.outside (h : Step i d p move d' p') (hfree : p.holds = false) :
    (d'.status.state = .running → d.status.state = .running) ∧
      (d'.buf = d.buf ∨ ∃ reader head, p = .read reader (.store head) ∧ d'.buf = d.buf.setOut head) := by
  cases h with
  | @onward c move r hnext hwhole htest =>
      constructor
      · intro hrun
        rcases Threads.running_of_next hnext hrun with hran | ⟨hholds, -⟩
        · exact hran
        · rw [show c.holds = false from hfree] at hholds
          cases hholds
      · apply Or.inl
        have hnextStep := Call.nextStep_of_next hnext
        generalize r.1 = o at hnextStep
        generalize r.2.1 = d' at hnextStep ⊢
        generalize r.2.2 = p' at hnextStep
        cases hnextStep with
        | begin hbegin => rfl
        | invalid e => rfl
        | @start opts pc ok o d' p' hstart =>
            cases hstart with
            | noData hbuf => exact absurd rfl (htest _ _)
            | hasData hdata => exact absurd rfl (htest _ _)
            | supplyDisable => cases ok <;> rfl
            | _ => first | rfl | cases hfree
        | write hwrite => cases hwrite <;> first | rfl | cases hfree
        | copy hcopy => cases hfree
        | clear hclear => cases hclear <;> first | rfl | cases hfree
        | offRing hp hp' hsupply => exact hsupply.buf
  | stored => exact ⟨id, .inr ⟨_, _, rfl, rfl⟩⟩
  | asks => exact ⟨id, .inl rfl⟩
  | tests => exact ⟨id, .inl rfl⟩
  | looked hp' => exact ⟨id, .inl rfl⟩
  | _ => cases hfree

/-! What a thread that clears the data knows. -/

end Access

def DropPc.Zeroed (f : Kfifo) : DropPc → Prop
  | .resetOut => True
  | .resetIn => f.outIndex = 0
  | .readOut => f.outIndex = 0 ∧ f.inIndex = 0
  | .readIn head => head = 0 ∧ f.inIndex = 0
  | .load head tail => head = 0 ∧ tail = 0

namespace Access

variable {i : Nat} {d d' : Driver} {p p' : Access} {move : AccessMove}

structure Sound (d : Driver) (p : Access) : Prop where
  rests : p.dropping = true → d.status.state ≠ .running
  zeroed : ∀ position pc, p = .drop position pc → pc.Zeroed d.buf.fifo

theorem sound_of_not_dropping (h : p.dropping = false) : p.Sound d where
  rests hdrops := by
    rw [h] at hdrops
    cases hdrops
  zeroed := by
    rintro position pc rfl
    cases h

theorem rests_of_next {c c' : Call} {m : Move} {o : List Notice}
    (h : Call.NextStep i d c m o d' c') (hp' : (Access.call c').dropping = true) :
    d'.status.state ≠ .running := by
  cases h with
  | begin hbegin =>
      cases hbegin with
      | offRing hoff =>
          have hholds : c'.holds = true := holds_of_dropping hp'
          rw [Call.holds_of_offRing hoff] at hholds
          cases hholds
      | _ => cases hp'
  | invalid e => cases hp'
  | @start opts pc ok o d' c' hstep =>
      cases hstep with
      | powerPins => cases opts.preservePower <;> cases hp'
      | _ => cases hp'
  | write hstep => cases hstep <;> cases hp'
  | copy hstep => cases hstep <;> cases hp'
  | clear hstep =>
      cases hstep with
      | checked hstate => exact hstate
      | _ => cases hp'
  | offRing hoff hc' hsupply =>
      rcases hc' with rfl | hc'
      · cases hp'
      · have hholds : c'.holds = true := holds_of_dropping hp'
        rw [Call.holds_of_offRing hc'] at hholds
        cases hholds

theorem Step.sound (h : Step i d p move d' p') (hs : p.Sound d) : p'.Sound d' := by
  cases h with
  | onward hnext hwhole htest =>
      refine ⟨rests_of_next (Call.nextStep_of_next hnext), ?_⟩
      intro position pc heq
      cases heq
  | asks => exact sound_of_not_dropping rfl
  | tests => exact sound_of_not_dropping rfl
  | stored => exact sound_of_not_dropping rfl
  | looked hp' =>
      apply sound_of_not_dropping
      apply Bool.eq_false_iff.mpr
      intro hdrops
      rw [holds_of_dropping hdrops] at hp'
      cases hp'
  | loaded => exact sound_of_not_dropping rfl
  | unloaded => exact sound_of_not_dropping rfl
  | drops =>
      refine ⟨fun _ => hs.rests rfl, ?_⟩
      rintro position pc heq
      cases heq
      trivial
  | resetOut =>
      refine ⟨fun _ => hs.rests rfl, ?_⟩
      rintro position pc heq
      cases heq
      rfl
  | resetIn =>
      refine ⟨fun _ => hs.rests rfl, ?_⟩
      rintro position pc heq
      cases heq
      exact ⟨hs.zeroed _ _ rfl, rfl⟩
  | readOut =>
      refine ⟨fun _ => hs.rests rfl, ?_⟩
      rintro position pc heq
      cases heq
      exact hs.zeroed _ .readOut rfl
  | readIn =>
      refine ⟨fun _ => hs.rests rfl, ?_⟩
      rintro position pc heq
      cases heq
      exact hs.zeroed _ (.readIn _) rfl

theorem around_cases {event : Surrounding} {r : List Shown × Driver}
    (h : around d event = some r) : (∀ fetch, event ≠ .free fetch) ∧
      ∃ q, d.around event = some q ∧ r.2 = q.2 := by
  unfold around at h
  split at h
  · cases h
  · rename_i hfree
    obtain ⟨q, hq, rfl⟩ := Option.map_eq_some_iff.mp h
    exact ⟨hfree, q, hq, rfl⟩

theorem around_fifo {event : Surrounding} {r : List Shown × Driver}
    (h : around d event = some r) : r.2.buf.fifo = d.buf.fifo ∧
      (d.control.RunScoped → d.status.state ≠ .running → r.2.buf = d.buf) := by
  obtain ⟨hfree, q, hq, hr⟩ := around_cases h
  rw [hr]
  by_cases htick : ∃ fuel, event = .tick fuel
  · obtain ⟨fuel, rfl⟩ := htick
    constructor
    · obtain ⟨-, es, c, -, hd⟩ := Driver.tick_cases hq
      rw [hd]
    · intro hscoped hstate
      exact absurd (hscoped.running_of_tick hq) hstate
  · have hbuf : q.2.buf = d.buf := congrArg Aside.buf
      (Driver.around_aside_kept hq (fun fuel heq => htick ⟨fuel, heq⟩) hfree)
    rw [hbuf]
    exact ⟨rfl, fun _ _ => rfl⟩

/-! What a cleared ring stays empty through. -/

/-- The thread loads the tail of the script: it publishes a write, starts a run or ends a
clear. -/
def tails : Access → AccessMove → Bool
  | .call (.write _ .publish), .call (.next _) | .call (.start _ (.regs _)), .call (.next _) => true
  | .drop _ (.load _ _), .call (.next ok) => ok
  | _, _ => false

private theorem notMem_loads {c : Call} {m : Move} {r : List Notice × Driver × Call}
    (hnext : c.next i d m = some r) (hwhole : ∀ position, c ≠ .clear true position .clear)
    (htails : (Access.call c).tails (.call m) = false) : 28 ∉ c.loads ∧ 29 ∉ c.loads := by
  have hquiet : c.loads ⊆ [20, 24, 25, 26] := by
    cases c with
    | start opts pc =>
        cases pc with
        | regs gen => cases m <;> first | cases hnext | cases htails
        | inhibit gen => exact (by decide : ([20] : List Word) ⊆ [20, 24, 25, 26])
        | _ => exact List.nil_subset _
    | write data pc =>
        cases pc with
        | publish => cases m <;> first | cases hnext | cases htails
        | _ => exact List.nil_subset _
    | clear data position pc =>
        cases pc with
        | clear =>
            cases data with
            | true => exact absurd rfl (hwhole position)
            | false => cases position <;> decide
        | _ => exact List.nil_subset _
    | _ => exact List.nil_subset _
  constructor
  · exact fun hmem => absurd (hquiet hmem) (by decide)
  · exact fun hmem => absurd (hquiet hmem) (by decide)

theorem Step.ends (h : Step i d p move d' p') (htails : p.tails move = false) :
    d'.buf.player.head = d.buf.player.head ∧ d'.buf.player.tail = d.buf.player.tail := by
  cases h with
  | onward hnext hwhole htest =>
      have hrewritten := (Call.nextStep_of_next hnext).rewritten
      obtain ⟨hhead, htail⟩ := notMem_loads hnext hwhole htails
      exact ⟨hrewritten.word hhead, hrewritten.word htail⟩
  | loaded => cases htails
  | _ => exact ⟨rfl, rfl⟩

theorem Step.running (h : Step i d p move d' p') (hrun : d'.status.state = .running) :
    d.status.state = .running ∨ p.loaded = true := by
  cases h with
  | onward hnext hwhole htest =>
      by_cases hrest : d.status.state = .running
      · exact .inl hrest
      · obtain ⟨opts, gen, was, rfl, -⟩ := Threads.commits_of_running hnext hrun hrest
        exact .inr rfl
  | _ => exact .inl hrun

private theorem loads_of_next {c c' : Call} {m : Move} {o : List Notice}
    (h : Call.NextStep i d c m o d' c') (hp' : (Access.call c').loaded = true) :
    (Access.call c).loaded = true ∨ (Access.call c).tails (.call m) = true := by
  have hholds : c'.holds = true := holds_of_loaded hp'
  cases h with
  | begin hbegin =>
      rw [Call.holds_of_begins hbegin] at hholds
      cases hholds
  | invalid e => cases hp'
  | start hstep => cases hstep <;> first | exact .inl rfl | exact .inr rfl | cases hp'
  | write hstep => cases hstep <;> cases hp'
  | copy hstep => cases hstep <;> cases hp'
  | clear hstep => cases hstep <;> cases hp'
  | offRing hoff hc' hsupply =>
      rcases hc' with rfl | hc'
      · cases hp'
      · rw [Call.holds_of_offRing hc'] at hholds
        cases hholds

theorem Step.loads (h : Step i d p move d' p') (hp' : p'.loaded = true) :
    p.loaded = true ∨ p.tails move = true := by
  cases h with
  | onward hnext hwhole htest => exact loads_of_next (Call.nextStep_of_next hnext) hp'
  | looked hfree =>
      rw [holds_of_loaded hp'] at hfree
      cases hfree
  | _ => cases hp'

theorem Step.succeeds {position : Bool} (h : Step i d p move d' p')
    (hp' : p' = .call (.clear true position (.leave none))) :
    ∃ head tail, p = .drop position (.load head tail) ∧ move = .call (.next true) := by
  cases h with
  | @onward c m r hnext hwhole htest =>
      have hnextStep := Call.nextStep_of_next hnext
      have hr : r.2.2 = .clear true position (.leave none) := by
        injection hp'
      rw [hr] at hnextStep
      generalize r.1 = o at hnextStep
      generalize r.2.1 = d' at hnextStep
      cases hnextStep with
      | begin hbegin =>
          cases hbegin with
          | offRing hoff => cases hoff
      | clear hstep =>
          cases hstep with
          | cleared hc => exact absurd rfl (hwhole position)
      | offRing hoff hc' hsupply => rcases hc' with hc' | hc' <;> cases hc'
      | start hstep => cases hstep
      | write hstep => cases hstep
      | copy hstep => cases hstep
  | looked hfree =>
      rw [hp'] at hfree
      cases hfree
  | loaded =>
      cases hp'
      exact ⟨_, _, rfl, rfl⟩
  | _ => cases hp'

end Access

abbrev Accesses := Pool Nat Access Driver

namespace Accesses

abbrev Action := PoolAction Nat AccessMove Surrounding

def probe (ringMb : Nat) (args : ScriptArgs) (lines : PinId → Bool) (railOn : Bool) : Accesses :=
  ⟨.probe ringMb args lines railOn, fun _ => .call .idle⟩

def step (P : Accesses) : Action → Option (List Shown × Accesses) :=
  Pool.step Access.next Access.around P

def lift : Threads.Action → Action
  | .thread i move => .thread i (.call move)
  | .surround event => .surround event

def go (i : Nat) (ok : Bool) : Action := .thread i (.call (.next ok))

section Alone

variable (d : Driver) (f : Nat → Access) (i : Nat)

theorem step_drop (position ok : Bool) (pc : DropPc) :
    step ⟨d, Function.update f i (.drop position pc)⟩ (go i ok) =
      some ((Access.stepDrop d position ok pc).1, ⟨(Access.stepDrop d position ok pc).2.1,
        Function.update f i (Access.stepDrop d position ok pc).2.2⟩) := by
  simp only [step, go, Pool.step, Function.update_self, Access.next, Option.map_some,
    Function.update_idem]

theorem step_read (reader : Reader) (ok : Bool) (pc : ReadPc) :
    step ⟨d, Function.update f i (.read reader pc)⟩ (go i ok) =
      some ((Access.stepRead d reader ok pc).1, ⟨(Access.stepRead d reader ok pc).2.1,
        Function.update f i (Access.stepRead d reader ok pc).2.2⟩) := by
  simp only [step, go, Pool.step, Function.update_self, Access.next, Option.map_some,
    Function.update_idem]

/-- The accesses of a clear, one after the other, come to the clear in one section. -/
theorem drop_alone (position ok : Bool) :
    System.execute step (List.replicate 4 (go i true) ++ [go i ok])
        ⟨d, Function.update f i (.drop position .resetOut)⟩ =
      some ([], ⟨{ d with buf := (d.buf.clear true position ok).2 },
        Function.update f i
          (.call (.clear true position (.leave (if ok then none else some .ESDMA))))⟩) := by
  cases ok <;>
    simp only [List.replicate, List.cons_append, List.nil_append, System.execute, step_drop,
      Access.stepDrop, Option.bind_some, Option.map_some] <;> rfl

/-- A reader comes to its answer with the head of the script in `kfifo.out`. -/
theorem synced_alone (reader : Reader) :
    System.execute step (List.replicate 3 (go i true))
        ⟨d, Function.update f i (.read reader .fetch)⟩ =
      some ([], ⟨{ d with buf := d.buf.synced },
        Function.update f i (.read reader (.readOut d.buf.fifo.inIndex))⟩) := by
  simp only [List.replicate, System.execute, step_read, Access.stepRead, if_true, Option.bind_some,
    Option.map_some]
  rfl

/-- The accesses of a reader of the free space come to it in one section, -/
theorem read_free_alone :
    System.execute step (List.replicate 3 (go i true) ++ [go i true])
        ⟨d, Function.update f i (.read .free .fetch)⟩ =
      some ([.freeSpace (d.buf.getFreeSpace true).1],
        ⟨{ d with buf := (d.buf.getFreeSpace true).2 }, Function.update f i (.call .idle)⟩) := by
  have hlast : System.execute step [go i true] ⟨{ d with buf := d.buf.synced },
      Function.update f i (.read .free (.readOut d.buf.fifo.inIndex))⟩ =
      some ([.freeSpace (d.buf.getFreeSpace true).1],
        ⟨{ d with buf := (d.buf.getFreeSpace true).2 }, Function.update f i (.call .idle)⟩) := by
    simp only [System.execute, step_read, Access.stepRead, Option.bind_some, Option.map_some]
    rfl
  exact System.execute_append (synced_alone d f i .free) hlast

/-- and those of a start's test to the test. -/
theorem read_start_alone (opts : CncRunOptions) (gen : Word) :
    ∃ r, Call.stepStart i d opts true (.empty gen) = some r ∧
      System.execute step (List.replicate 3 (go i true) ++ [go i true])
          ⟨d, Function.update f i (.read (.start opts gen) .fetch)⟩ =
        some (r.1.map .notice, ⟨r.2.1, Function.update f i (.call r.2.2)⟩) := by
  have hfirst := synced_alone d f i (.start opts gen)
  have htest : Call.stepStart i d opts true (.empty gen) =
      match d.buf.synced.fifo.isEmpty with
      | true => some (Call.ret { d with buf := d.buf.synced } (some .ENODATA))
      | false => some ([], { d with buf := d.buf.synced }, .start opts (.verify gen)) := by
    simp only [Call.stepStart, Pulsebuf.isEmpty, Pulsebuf.syncHead, if_true]
    cases d.buf.synced.fifo.isEmpty <;> rfl
  rw [htest]
  cases hempty : d.buf.synced.fifo.isEmpty with
  | true =>
      have hsame : d.buf.fifo.inIndex = d.buf.synced.fifo.outIndex := beq_iff_eq.mp hempty
      have hlast : System.execute step [go i true] ⟨{ d with buf := d.buf.synced },
          Function.update f i (.read (.start opts gen) (.readOut d.buf.fifo.inIndex))⟩ =
          some ([.notice (.returned (some .ENODATA))], ⟨{ d with buf := d.buf.synced },
            Function.update f i (.call .idle)⟩) := by
        simp only [System.execute, step_read, Access.stepRead, if_pos hsame, Option.bind_some,
          Option.map_some]
        rfl
      exact ⟨_, rfl, System.execute_append hfirst hlast⟩
  | false =>
      have hdata : d.buf.fifo.inIndex ≠ d.buf.synced.fifo.outIndex :=
        beq_eq_false_iff_ne.mp hempty
      have hlast : System.execute step [go i true] ⟨{ d with buf := d.buf.synced },
          Function.update f i (.read (.start opts gen) (.readOut d.buf.fifo.inIndex))⟩ =
          some ([], ⟨{ d with buf := d.buf.synced },
            Function.update f i (.call (.start opts (.verify gen)))⟩) := by
        simp only [System.execute, step_read, Access.stepRead, if_neg hdata, Option.bind_some,
          Option.map_some]
        rfl
      exact ⟨_, rfl, System.execute_append hfirst hlast⟩

end Alone

/-- No reader stores a head other than 0 while a clear stands between its reset of
`kfifo.out` and its read of it. -/
def Unstored (P : Accesses) (a : Action) : Prop :=
  ∀ i ok reader head, a = go i ok → P.threads i = .read reader (.store head) →
    ∀ j position, P.threads j = .drop position .resetIn ∨ P.threads j = .drop position .readOut →
      head = 0

/-- Each thread that clears the data knows the driver at rest and its indices zero. -/
structure Safe (P : Accesses) : Prop where
  locked : P.Owned Driver.pulsebufLock Access.holds
  sound : P.Holds (fun d => d.control.RunScoped) fun d _ p => p.Sound d

theorem safe_probe (ringMb : Nat) (args : ScriptArgs) (lines : PinId → Bool) (railOn : Bool) :
    Safe (probe ringMb args lines railOn) where
  locked := by
    intro i hi
    cases hi
  sound := ⟨Threads.runScoped_probe ringMb args lines railOn,
    fun _ => Access.sound_of_not_dropping rfl⟩

private theorem sound_of_outside {d d' : Driver} {q : Access} (h : q.Sound d)
    (hstate : d'.status.state = .running → d.status.state = .running)
    (hbuf : d'.buf = d.buf ∨ ∃ head, d'.buf = d.buf.setOut head ∧
      ∀ position, q = .drop position .resetIn ∨ q = .drop position .readOut → head = 0) :
    q.Sound d' := by
  refine ⟨fun hdrops hrun => h.rests hdrops (hstate hrun), ?_⟩
  rintro position pc rfl
  have hzeroed := h.zeroed position pc rfl
  rcases hbuf with hbuf | ⟨head, hbuf, hhead⟩
  · rw [hbuf]
    exact hzeroed
  · rw [hbuf]
    cases pc with
    | resetOut => trivial
    | resetIn => exact hhead position (.inl rfl)
    | readOut => exact ⟨hhead position (.inr rfl), hzeroed.2⟩
    | readIn head => exact hzeroed
    | load head tail => exact hzeroed

theorem Safe.step {P : Accesses} {a : Action} {r : List Shown × Accesses} (h : Safe P)
    (hguard : Unstored P a) (hstep : P.step a = some r) : Safe r.2 where
  locked := by
    apply Pool.Owned.step h.locked _ _ hstep
    · intro i d p move o d' p' hnext
      exact (Access.step_of_next hnext).uses
    · intro d event o d' haround
      obtain ⟨-, q, hq, hd⟩ := Access.around_cases haround
      rw [show d' = q.2 from hd]
      exact Driver.around_lock hq
  sound := by
    apply h.sound.step hstep
    · rintro i move d p rfl hnext
      have hnextStep : Access.Step i P.shared (P.threads i) move d p := Access.step_of_next hnext
      obtain ⟨o, hsim⟩ := hnextStep.simulated
      refine ⟨h.sound.shared.step hsim, hnextStep.sound (h.sound.threads i), ?_⟩
      intro j hj hsound
      by_cases hdrops : (P.threads j).dropping = true
      · have hfree : (P.threads i).holds = false := by
          apply Bool.eq_false_iff.mpr
          intro hi
          exact hj (Pool.Owned.exclusive h.locked (Access.holds_of_dropping hdrops) hi)
        obtain ⟨hstate, hbuf⟩ := hnextStep.outside hfree
        apply sound_of_outside hsound hstate
        rcases hbuf with hbuf | ⟨reader, head, hreader, hbuf⟩
        · exact .inl hbuf
        · refine .inr ⟨head, hbuf, ?_⟩
          intro position hwindow
          rw [hreader] at hnextStep
          cases hnextStep with
          | stored => exact hguard i _ reader head rfl hreader j position hwindow
          | looked hp' => exact hguard i _ reader head rfl hreader j position hwindow
      · exact Access.sound_of_not_dropping (Bool.eq_false_iff.mpr hdrops)
    · rintro event d rfl haround
      obtain ⟨-, q, hq, hd⟩ := Access.around_cases haround
      have hfifo : d.buf.fifo = P.shared.buf.fifo := (Access.around_fifo haround).1
      have hsame : d = q.2 := hd
      refine ⟨?_, ?_⟩
      · rw [hsame]
        exact h.sound.shared.step (Driver.around_simulated hq)
      · intro j hsound
        refine ⟨fun hdrops hrun => hsound.rests hdrops ?_, ?_⟩
        · rw [hsame] at hrun
          exact Threads.running_of_around hq hrun
        · intro position pc heq
          rw [hfifo]
          exact hsound.zeroed position pc heq

/-- The script is at rest on an empty ring, and no start has its registers loaded. -/
structure Settled (P : Accesses) : Prop where
  empty : P.shared.buf.player.head = P.shared.buf.player.tail
  rests : P.shared.status.state ≠ .running
  unloaded : ∀ j, (P.threads j).loaded = false

theorem Settled.step {P : Accesses} {a : Action} {r : List Shown × Accesses} (h : Settled P)
    (hsafe : Safe P) (htails : ∀ i move, a = .thread i move → (P.threads i).tails move = false)
    (hstep : P.step a = some r) : Settled r.2 := by
  cases a with
  | surround event =>
      obtain ⟨d, haround, hr⟩ := Pool.step_surround hstep
      obtain ⟨-, q, hq, hd⟩ := Access.around_cases haround
      have hbuf : d.buf = P.shared.buf :=
        (Access.around_fifo haround).2 hsafe.sound.shared h.rests
      have hsame : d = q.2 := hd
      rw [hr]
      refine ⟨?_, ?_, h.unloaded⟩
      · rw [hbuf]
        exact h.empty
      · intro hrun
        rw [hsame] at hrun
        exact h.rests (Threads.running_of_around hq hrun)
  | thread i move =>
      obtain ⟨d, p, hnext, hr⟩ := Pool.step_thread hstep
      have hnextStep : Access.Step i P.shared (P.threads i) move d p := Access.step_of_next hnext
      have hquiet := htails i move rfl
      obtain ⟨hhead, htail⟩ := hnextStep.ends hquiet
      rw [hr]
      refine ⟨?_, ?_, ?_⟩
      · rw [hhead, htail]
        exact h.empty
      · intro hrun
        rcases hnextStep.running hrun with hran | hloaded
        · exact h.rests hran
        · rw [h.unloaded i] at hloaded
          cases hloaded
      · intro j
        by_cases hji : j = i
        · subst hji
          apply Bool.eq_false_iff.mpr
          intro hloaded
          have hp : p.loaded = true := by
            change (Function.update P.threads j p j).loaded = true at hloaded
            rwa [Function.update_self] at hloaded
          rcases hnextStep.loads hp with hbefore | hbefore
          · rw [h.unloaded j] at hbefore
            cases hbefore
          · rw [hquiet] at hbefore
            cases hbefore
        · change (Function.update P.threads i p j).loaded = false
          rw [Function.update_of_ne hji]
          exact h.unloaded j

theorem settled_of_load {P : Accesses} {i : Nat} {position : Bool} {head tail : Word}
    {r : List Shown × Accesses} (hsafe : Safe P)
    (hthread : P.threads i = .drop position (.load head tail))
    (hstep : P.step (go i true) = some r) : Settled r.2 := by
  have hsound := hsafe.sound.threads i
  have hrests : P.shared.status.state ≠ .running := hsound.rests (by rw [hthread]; rfl)
  obtain ⟨hhead, htail⟩ : head = 0 ∧ tail = 0 := hsound.zeroed position _ hthread
  have hr : r.2 = ⟨{ P.shared with buf := P.shared.buf.loadIndices position head tail },
      Function.update P.threads i (.call (.clear true position (.leave none)))⟩ := by
    simp only [go, step, Pool.step, hthread, Access.next, Access.stepDrop, if_true,
      Option.map_some] at hstep
    cases hstep
    rfl
  rw [hr]
  refine ⟨?_, hrests, ?_⟩
  · obtain ⟨hhead', htail'⟩ := P.shared.buf.loadIndices_ends position head tail
    exact (hhead'.trans (hhead.trans htail.symm)).trans htail'.symm
  · intro j
    by_cases hji : j = i
    · subst hji
      change (Function.update P.threads j _ j).loaded = false
      rw [Function.update_self]
      rfl
    · change (Function.update P.threads i _ j).loaded = false
      rw [Function.update_of_ne hji]
      apply Bool.eq_false_iff.mpr
      intro hloaded
      apply hji
      apply Pool.Owned.exclusive hsafe.locked (Access.holds_of_loaded hloaded)
      rw [hthread]
      rfl

end Accesses

/-- The accesses, with whether a data clear has loaded the script since the last write
and run start. -/
abbrev Dropped := Logged Accesses Bool

namespace Dropped

def enter (dropped : Bool) (P : Accesses) : Accesses.Action → Bool
  | .thread i (.call (.next ok)) =>
      match P.threads i with
      | .drop _ (.load _ _) => ok || dropped
      | .call (.write _ .publish) | .call (.start _ (.regs _)) => false
      | _ => dropped
  | _ => dropped

def step : Dropped → Accesses.Action → Option (List Shown × Dropped) :=
  Logged.step Accesses.step fun dropped P a _ => enter dropped P a

def probe (ringMb : Nat) (args : ScriptArgs) (lines : PinId → Bool) (railOn : Bool) : Dropped :=
  ⟨.probe ringMb args lines railOn, false⟩

def Marked (L : Dropped) : Prop :=
  ∀ i position, L.state.threads i = .call (.clear true position (.leave none)) → L.ledger = true

theorem enter_cases {dropped : Bool} {P : Accesses} {a : Accesses.Action}
    (h : enter dropped P a = true) :
    (∃ i position head tail, a = Accesses.go i true ∧ P.threads i = .drop position (.load head tail)) ∨
    dropped = true ∧ ∀ i move, a = .thread i move → (P.threads i).tails move = false := by
  unfold enter at h
  split at h
  · rename_i i ok
    split at h
    · rename_i position head tail hthread
      cases ok with
      | true => exact .inl ⟨i, position, head, tail, rfl, hthread⟩
      | false =>
          refine .inr ⟨h, ?_⟩
          rintro j move heq
          cases heq
          rw [hthread]
          rfl
    · cases h
    · cases h
    · rename_i hload hpublish hregs
      refine .inr ⟨h, ?_⟩
      rintro j move heq
      cases heq
      unfold Access.tails
      split
      · exact absurd ‹_› (hpublish _)
      · exact absurd ‹_› (hregs _ _)
      · exact absurd ‹_› (hload _ _ _)
      · rfl
  · rename_i hother
    refine .inr ⟨h, ?_⟩
    rintro i move rfl
    unfold Access.tails
    split
    · exact absurd rfl (hother i _)
    · exact absurd rfl (hother i _)
    · exact absurd rfl (hother i _)
    · rfl

theorem enter_of_outside {dropped : Bool} {P : Accesses} {i : Nat} (move : AccessMove)
    (hfree : (P.threads i).holds = false) : enter dropped P (.thread i move) = dropped := by
  unfold enter
  split
  · rename_i heq
    cases heq
    split
    · rename_i hthread
      rw [hthread] at hfree
      cases hfree
    · rename_i hthread
      rw [hthread] at hfree
      cases hfree
    · rename_i hthread
      rw [hthread] at hfree
      cases hfree
    · rfl
  · rfl

theorem Marked.step {L : Dropped} {a : Accesses.Action} {r : List Shown × Dropped} (h : L.Marked)
    (hsafe : L.state.Safe) (hstep : L.step a = some r) : r.2.Marked := by
  obtain ⟨P, hP, hr⟩ := Logged.step_state hstep
  rw [hr]
  intro j position hj
  cases a with
  | surround event =>
      obtain ⟨d, -, rfl⟩ := Pool.step_surround hP
      exact h j position hj
  | thread i move =>
      obtain ⟨d, p, hnext, rfl⟩ := Pool.step_thread hP
      change enter L.ledger L.state (.thread i move) = true
      by_cases hji : j = i
      · subst hji
        have hp : p = .call (.clear true position (.leave none)) :=
          (Function.update_self _ _ _).symm.trans hj
        obtain ⟨head, tail, hthread, rfl⟩ := (Access.step_of_next hnext).succeeds hp
        simp only [enter, hthread, Bool.true_or]
      · have hj' : L.state.threads j = .call (.clear true position (.leave none)) :=
          (Function.update_of_ne hji _ _).symm.trans hj
        have hfree : (L.state.threads i).holds = false := by
          apply Bool.eq_false_iff.mpr
          intro hi
          apply hji
          apply Pool.Owned.exclusive hsafe.locked _ hi
          rw [hj']
          rfl
        rw [enter_of_outside move hfree]
        exact h j position hj'

/-- In every run in which no reader stores a head other than 0 between a clear's reset of
`kfifo.out` and its read of it: when a data clear returns 0, and from there on until a
write is published or a start loads its registers, the script's head is at its tail. -/
theorem data_clear_empties {ringMb : Nat} {args : ScriptArgs} {lines : PinId → Bool}
    {railOn : Bool} {as : List Accesses.Action} {r : List Shown × Dropped}
    (hguard : System.Along Accesses.step Accesses.Unstored as (.probe ringMb args lines railOn))
    (hexec : System.execute step as (probe ringMb args lines railOn) = some r) :
    (∀ i position, r.2.state.threads i = .call (.clear true position (.leave none)) →
      r.2.ledger = true) ∧
    (r.2.ledger = true → r.2.state.shared.buf.player.head = r.2.state.shared.buf.player.tail) := by
  have hlifted : System.Along step (fun L a => Accesses.Unstored L.state a) as
      (probe ringMb args lines railOn) := Logged.along_state hguard
  have hrun := System.execute_guarded (P := fun _ => True)
    (I := fun L => L.state.Safe ∧ L.Marked ∧ (L.ledger = true → L.state.Settled)) ?_ ?_ hlifted hexec
  · obtain ⟨⟨-, hmarked, hsettled⟩, -⟩ := hrun
    exact ⟨hmarked, fun hup => (hsettled hup).empty⟩
  · rintro L a q ⟨hsafe, hmarked, hsettled⟩ hunstored hstep
    refine ⟨?_, fun _ _ => trivial⟩
    have hmarked' : q.2.Marked := hmarked.step hsafe hstep
    obtain ⟨P, hP, hq⟩ := Logged.step_state hstep
    refine ⟨?_, hmarked', ?_⟩
    · rw [hq]
      exact hsafe.step hunstored hP
    · rw [hq]
      intro hup
      rcases enter_cases hup with ⟨i, position, head, tail, rfl, hthread⟩ | ⟨hbefore, htails⟩
      · exact Accesses.settled_of_load hsafe hthread hP
      · exact (hsettled hbefore).step hsafe htails hP
  · refine ⟨Accesses.safe_probe ringMb args lines railOn, ?_, ?_⟩
    · intro i position hthread
      cases hthread
    · intro hup
      cases hup

/-- A byte is played. A reader fetches the head after it; a clear resets both indices, and
reads back the head that the reader has stored in between. -/
private def staleHead : List Accesses.Action :=
  List.map Accesses.lift (Threads.callWrite 0 [0] ++ Threads.call 0 (.start .run) 20 ++
    [.surround (.tick 400), .surround (.tick 400), .surround .halt]) ++
  [.thread 1 .free, Accesses.go 1 true] ++
  List.map Accesses.lift (Threads.call 2 (.clear true false) 5) ++ [Accesses.go 1 true] ++
  List.replicate 3 (Accesses.go 2 true)

theorem data_clear_empties_false :
    ¬∀ (ringMb : Nat) (args : ScriptArgs) (lines : PinId → Bool) (railOn : Bool)
      (as : List Accesses.Action) (r : List Shown × Dropped),
      System.execute step as (probe ringMb args lines railOn) = some r → r.2.ledger = true →
      r.2.state.shared.buf.player.head = r.2.state.shared.buf.player.tail := by
  intro h
  have hrun : (System.execute step staleHead
      (probe 1 (.over fun _ => 0) (fun _ => true) false)).map (fun r =>
        (r.2.ledger, r.2.state.shared.buf.player.head, r.2.state.shared.buf.player.tail,
          r.2.state.threads 2)) =
      some (true, 1, 0, .call (.clear true false (.leave none))) := by decide +kernel
  obtain ⟨r, hexec, hseen⟩ := Option.map_eq_some_iff.mp hrun
  simp only [Prod.mk.injEq] at hseen
  obtain ⟨hup, hhead, htail, -⟩ := hseen
  have hsame := h _ _ _ _ _ r hexec hup
  rw [hhead, htail] at hsame
  exact absurd hsame (by decide)

/-- A byte is written, and a clear drops it; a reader that has fetched the head 0 stores it
between the reset and the read. -/
private def zeroStored : List Accesses.Action :=
  List.map Accesses.lift (Threads.callWrite 0 [0]) ++ [.thread 1 .free, Accesses.go 1 true] ++
  List.map Accesses.lift (Threads.call 2 (.clear true false) 5) ++ [Accesses.go 1 true] ++
  List.replicate 3 (Accesses.go 2 true)

private def storesZero (P : Accesses) : Accesses.Action → Bool
  | .thread i _ =>
      match P.threads i with
      | .read _ (.store head) => decide (head = 0)
      | _ => true
  | .surround _ => true

theorem data_clear_empties_zeroStored :
    ∃ r, System.execute step zeroStored (probe 1 (.over fun _ => 0) (fun _ => true) false) = some r ∧
      r.2.ledger = true ∧
      r.2.state.shared.buf.player.head = r.2.state.shared.buf.player.tail := by
  have hrun : (System.execute step zeroStored
      (probe 1 (.over fun _ => 0) (fun _ => true) false)).map (fun r => r.2.ledger) = some true := by
    decide +kernel
  obtain ⟨r, hexec, hup⟩ := Option.map_eq_some_iff.mp hrun
  have hguard : System.Along Accesses.step Accesses.Unstored zeroStored
      (.probe 1 (.over fun _ => 0) (fun _ => true) false) := by
    have hzero : System.Along Accesses.step (fun P a => storesZero P a = true) zeroStored
        (.probe 1 (.over fun _ => 0) (fun _ => true) false) :=
      System.along_of_check (by decide +kernel)
    apply hzero.mono
    rintro P a htest i ok reader head rfl hthread j position -
    simp only [storesZero, Accesses.go, hthread] at htest
    exact of_decide_eq_true htest
  exact ⟨r, hexec, hup, (data_clear_empties hguard hexec).2 hup⟩

end Dropped

end Glowforge.Cnc
