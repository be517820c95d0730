import Glowforge.Cnc.Backtrack
import Glowforge.Foundation.RingIndex
import Glowforge.Sdma.Session

/-! The queue of pulse data shared with the SDMA engine (`cnc_buffer.c`). Every
context transfer takes its outcome as an argument; one that fails leaves the
context alone. -/
namespace Glowforge.Cnc
open Foundation Sdma

/-- The error returns of the driver's operations; `ESDMA` stands for whatever a failed
context transfer returns. -/
inductive Errno where
  | EPERM
  | ESDMA
  | ERANGE
  | ENOMEM
  | EFAULT
  | EBUSY
  | EINVAL
  | ENODATA
  deriving DecidableEq, Repr

/-- A byte kfifo: free-running indices into `mask + 1` cells. -/
structure Kfifo where
  inIndex : Word
  outIndex : Word
  mask : Word
  deriving DecidableEq, Repr

namespace Kfifo

def init (size : Word) : Kfifo := ⟨0, 0, size - 1⟩

def size (f : Kfifo) : Word := f.mask + 1

def avail (f : Kfifo) : Word := f.size - (f.inIndex - f.outIndex)

def isEmpty (f : Kfifo) : Bool := f.inIndex == f.outIndex

def reset (f : Kfifo) : Kfifo := { f with inIndex := 0, outIndex := 0 }

end Kfifo

/-- The pulse buffer fields of `struct cnc`, with the engine they share a ring with. -/
structure Pulsebuf where
  fifo : Kfifo
  phys : Word
  totalBytes : BitVec 64
  engine : Config Label

/-- `CNC_BUFFER_GAP_SIZE`: 32 KiB. -/
def cncBufferGapSize : Word := 32 * 1024

/-- The ring size in MiB that `cnc_buffer_init` settles on. -/
def ringMbOrDefault (ringMb : Nat) : Nat :=
  if (ringMb ≠ 0 ∧ ringMb &&& (ringMb - 1) = 0) ∧ 1 ≤ ringMb ∧ ringMb ≤ 1024 then ringMb else 32

/-- `cnc_buffer_init` followed by `load_sdma_script`: the script's ring arguments are
those of the buffer, its other arguments and the memory come from `args`. -/
def cncBufferInit (ringMb : Nat) (args : ScriptArgs) : Pulsebuf :=
  let fifo := Kfifo.init (BitVec.ofNat 32 (ringMbOrDefault ringMb * 2 ^ 20))
  { fifo := fifo
    phys := args.fifoStartPhys
    totalBytes := 0
    engine := loadSdmaScript { args with fifoBitmask := fifo.mask } }

/-- How `kfifo_from_user` ends: everything copied, or a fault that leaves `copied`
bytes of the data and then the `spill` in the cells it set out to fill. -/
inductive CopyOutcome where
  | all
  | fault (copied : Nat) (spill : List Byte)
  deriving DecidableEq, Repr

namespace Pulsebuf

def store (s : Pulsebuf) (bs : List Byte) : Pulsebuf :=
  let mem := storeRing s.phys s.fifo.mask s.fifo.inIndex bs s.engine.m.mem
  { s with engine := s.engine.withMachine ({ s.engine.m with mem := mem }) }

def publishTail (s : Pulsebuf) : Pulsebuf :=
  { s with engine := s.engine.withMachine (s.engine.m.setWord 29 s.fifo.inIndex) }

def setIn (s : Pulsebuf) (i : Word) : Pulsebuf :=
  { s with fifo := { s.fifo with inIndex := i } }

/-- The read index as the script has it. -/
def synced (s : Pulsebuf) : Pulsebuf :=
  { s with fifo := { s.fifo with outIndex := s.engine.m.word 28 } }

def syncHead (s : Pulsebuf) (fetch : Bool) : Except Errno Unit × Pulsebuf :=
  if fetch then (.ok (), s.synced) else (.error .ESDMA, s)

/-- `cnc_buffer_add_user_data` up to the room check. -/
def addUserDataBegin (s : Pulsebuf) (runningBackward fetch : Bool) (count : Nat) :
    Except Errno Unit × Pulsebuf :=
  if runningBackward then (.error .EBUSY, s)
  else
    match s.syncHead fetch with
    | (.error e, s) => (.error e, s)
    | (.ok _, s) =>
        if s.fifo.avail < BitVec.ofNat 32 count + cncBufferGapSize then (.error .ENOMEM, s)
        else (.ok (), s)

/-- The copy, with the roll-back of a partial one. It copies no more than there is
room for, and leaves the memory as the outcome says. -/
def addUserDataCopy (s : Pulsebuf) (data : List Byte) : CopyOutcome → Except Errno Unit × Pulsebuf
  | .all =>
      let len := min data.length s.fifo.avail.toNat
      let copied := BitVec.ofNat 32 len
      let s₁ := (s.store (data.take len)).setIn (s.fifo.inIndex + copied)
      if len ≠ data.length then (.error .ENOMEM, s₁.setIn (s₁.fifo.inIndex - copied))
      else (.ok (), { s₁ with totalBytes := s₁.totalBytes + BitVec.ofNat 64 data.length })
  | .fault copied spill =>
      let n := BitVec.ofNat 32 copied
      let s₁ := (s.store (data.take copied ++ spill)).setIn (s.fifo.inIndex + n)
      (.error .EFAULT, s₁.setIn (s₁.fifo.inIndex - n))

/-- The end of `cnc_buffer_add_user_data`: tell the script about the new tail. -/
def addUserDataPublish (s : Pulsebuf) (load : Bool) : Except Errno Unit × Pulsebuf :=
  if load then (.ok (), s.publishTail) else (.error .ESDMA, s)

def forget (s : Pulsebuf) (data : Bool) : Pulsebuf :=
  if data then { s with fifo := s.fifo.reset, totalBytes := 0 } else s

def clear (s : Pulsebuf) (data position load : Bool) : Except Errno Unit × Pulsebuf :=
  if !data && !position then (.error .EINVAL, s)
  else if load then
    (.ok (), { s.forget data with engine := (s.forget data).engine.clear data position })
  else (.error .ESDMA, s.forget data)

/-- `cnc_buffer_is_empty`; a failed fetch reads as empty. -/
def isEmpty (s : Pulsebuf) (fetch : Bool) : Bool × Pulsebuf :=
  match s.syncHead fetch with
  | (.error _, s) => (true, s)
  | (.ok _, s) => (s.fifo.isEmpty, s)

def getFreeSpace (s : Pulsebuf) (fetch : Bool) : Word × Pulsebuf :=
  let s := (s.syncHead fetch).2
  (if s.fifo.avail > cncBufferGapSize then s.fifo.avail - cncBufferGapSize else 0, s)

/-- `cnc_buffer_max_backtrack_length`; a failed fetch reads as no history. -/
def maxBacktrackLength (s : Pulsebuf) (fetch : Bool) (stepFreq rampRate : Word) : Word × Pulsebuf :=
  match s.syncHead fetch with
  | (.error _, s) => (0, s)
  | (.ok _, s) =>
      (cncBacktrackMaxSteps s.fifo.size (s.fifo.inIndex - s.fifo.outIndex) s.totalBytes
        (cncBacktrackDecelSteps stepFreq rampRate), s)

def backtrackDeadStop (s : Pulsebuf) : Word :=
  s.fifo.inIndex - cncBacktrackSpan s.fifo.size s.totalBytes

end Pulsebuf

end Glowforge.Cnc
