import Glowforge.Sdma.Isa

/-! The pulse script of `asm/sdma.asm`, block by block under its own labels. -/
namespace Glowforge.Sdma
open Reg Instr

inductive Label where
  | start
  | fifoConsumeByte
  | fifoConsumeByteNoIflagClear
  | doXDir
  | doYDir
  | doZDir
  | setDir
  | doXStep
  | doYStep
  | doZStep
  | doLaser
  | setStepAndLaser
  | updXPos
  | updXPos2
  | updYPos
  | updYPos2
  | updZPos
  | updZPos2
  | updPosDone
  | clearStepBits
  | endbyte
  | endbyteDone
  | restartRelay
  | alldone
  | alldoneWait
  | doPower
  | powerDone
  | alldoneFirst
  | waypointHit
  deriving DecidableEq, Repr

/-- The label that follows in the file: where execution falls through to. -/
def Label.next : Label → Option Label
  | .start => some .fifoConsumeByte
  | .fifoConsumeByte => some .fifoConsumeByteNoIflagClear
  | .fifoConsumeByteNoIflagClear => some .doXDir
  | .doXDir => some .doYDir
  | .doYDir => some .doZDir
  | .doZDir => some .setDir
  | .setDir => some .doXStep
  | .doXStep => some .doYStep
  | .doYStep => some .doZStep
  | .doZStep => some .doLaser
  | .doLaser => some .setStepAndLaser
  | .setStepAndLaser => some .updXPos
  | .updXPos => some .updXPos2
  | .updXPos2 => some .updYPos
  | .updYPos => some .updYPos2
  | .updYPos2 => some .updZPos
  | .updZPos => some .updZPos2
  | .updZPos2 => some .updPosDone
  | .updPosDone => some .clearStepBits
  | .clearStepBits => some .endbyte
  | .endbyte => some .endbyteDone
  | .endbyteDone => some .restartRelay
  | .restartRelay => some .alldone
  | .alldone => some .alldoneWait
  | .alldoneWait => some .doPower
  | .doPower => some .powerDone
  | .powerDone => some .alldoneFirst
  | .alldoneFirst => some .waypointHit
  | .waypointHit => none

def Label.block : Label → List (Instr Label)
  | .start => [
      ldi r1 1,
      ldi r3 0,
      stf r1 0xc8,        -- (PD) clear EPIT interrupt flag
      done 4]
  | .fifoConsumeByte => [
      stf r1 0xc8]
  | .fifoConsumeByteNoIflagClear => [
      ld r0 r7 30,        -- parked guard: the direction is zero
      cmpeqi r0 0,
      bt .alldone,
      cmpeqi r6 0,        -- no ring
      bt .alldone,
      ld r0 r7 28,        -- head
      and r0 r4,
      ld r2 r7 29,        -- tail
      and r2 r4,
      cmpeq r0 r2,
      bt .alldone,
      add r0 r6,
      stf r0 0x10,        -- (MSA|FR) source address
      ldf r2 0x09,        -- (MD|SZ8) the pulse byte
      btsti r2 7,
      bt .doPower,
      ld r0 r7 30,
      btsti r0 31,
      bf .doXDir,
      xori r2 0x4a,       -- backward: invert X_DIR, Y_DIR and Z_DIR
      bclri r2 4]         -- and keep the laser off
  | .doXDir => [
      bseti r3 19,
      btsti r2 1,
      bf .doYDir,
      bclri r3 19]
  | .doYDir => [
      bclri r3 28,
      bseti r3 18,
      btsti r2 3,
      bf .doZDir,
      bseti r3 28,
      bclri r3 18]
  | .doZDir => [
      bclri r3 17,
      btsti r2 6,
      bf .setDir,
      bseti r3 17]
  | .setDir => [
      stf r3 0x2b,        -- (MD|SZ32|FL) GPIO register
      ldi r0 13,
      loop .doXStep 0,
      mov r1 r1,
      mov r1 r1,
      mov r1 r1]
  | .doXStep => [
      btsti r2 0,
      bf .doYStep,
      bseti r3 22]
  | .doYStep => [
      btsti r2 2,
      bf .doZStep,
      bseti r3 20,
      bseti r3 29]
  | .doZStep => [
      btsti r2 5,
      bf .doLaser,
      bseti r3 21]
  | .doLaser => [
      bclri r3 30,
      bclri r3 31,
      btsti r2 4,
      bf .setStepAndLaser,
      bseti r3 30,
      bseti r3 31]
  | .setStepAndLaser => [
      ld r0 r7 18,        -- motor lock
      andn r3 r0,
      ld r0 r7 20,        -- laser inhibit
      andn r3 r0,
      stf r3 0x2b,
      ldi r0 50,
      loop .updXPos 0,
      mov r1 r1,
      mov r1 r1,
      mov r1 r1]
  | .updXPos => [
      btsti r2 0,
      bf .updYPos,
      ld r0 r7 24,
      btsti r2 1,
      bf .updXPos2,
      subi r0 2]
  | .updXPos2 => [
      addi r0 1,
      st r0 r7 24]
  | .updYPos => [
      btsti r2 2,
      bf .updZPos,
      ld r0 r7 25,
      btsti r2 3,
      bt .updYPos2,
      subi r0 2]
  | .updYPos2 => [
      addi r0 1,
      st r0 r7 25]
  | .updZPos => [
      btsti r2 5,
      bf .updPosDone,
      ld r0 r7 26,
      btsti r2 6,
      bt .updZPos2,
      subi r0 2]
  | .updZPos2 => [
      addi r0 1,
      st r0 r7 26]
  | .updPosDone => [
      bclri r1 1]
  | .clearStepBits => [
      bclri r3 22,
      bclri r3 20,
      bclri r3 29,
      bclri r3 21,
      stf r3 0x2b]
  | .endbyte => [
      ld r2 r7 30,        -- the increment
      ld r0 r7 27,
      add r0 r2,
      st r0 r7 27,        -- byte counter
      ld r0 r7 28,
      add r0 r2,
      st r0 r7 28,        -- head
      ld r0 r7 31,
      cmpeqi r0 0,
      bt .endbyteDone,
      subi r0 1,
      st r0 r7 31,        -- waypoint counter
      bt .waypointHit]
  | .endbyteDone => [
      btsti r1 2,
      bclri r1 2,
      bt .fifoConsumeByteNoIflagClear,
      done 4,
      btsti r1 0,
      bt .fifoConsumeByte]
  | .restartRelay => [
      btsti r1 0,
      bt .start]
  | .alldone => [
      bclri r3 30,
      bclri r3 31,
      bclri r3 22,
      bclri r3 20,
      bclri r3 29,
      bclri r3 21,
      stf r3 0x2b,
      ld r0 r7 30,
      cmpeqi r0 0,
      bf .alldoneFirst,
      addi r2 1,
      cmpeqi r2 255,
      bf .alldoneWait,
      ldi r2 0,
      notify 3]
  | .alldoneWait => [
      done 4,
      btsti r1 0,
      bt .restartRelay]
  | .doPower => [
      btsti r1 1,
      bt .endbyte,
      ld r0 r7 30,
      btsti r0 31,
      bt .powerDone,
      ldf r0 0xd0,        -- (PDA) the EPIT status register
      stf r5 0xd3,        -- (PDA|SZ32|F) PWMSAR
      andi r2 0x7f,
      stf r2 0xc8,        -- (PD) new duty cycle
      stf r0 0xd3,
      bseti r1 1]
  | .powerDone => [
      bseti r1 2,
      btsti r1 0,
      bt .endbyte]
  | .alldoneFirst => [
      ldi r0 0,
      st r0 r7 30,        -- parked
      st r0 r7 31,        -- waypoint disarmed
      ldf r2 0x04,        -- (MDA) the GPIO register
      ld r0 r7 21,        -- the mailbox
      stf r0 0x14,        -- (MDA|frozen)
      ldi r0 1,
      stf r0 0x2b,
      stf r2 0x14,
      ldi r2 0,
      notify 3,
      btsti r1 0,
      bt .alldoneWait]
  | .waypointHit => [
      ldi r0 0,
      st r0 r7 20,        -- the laser inhibit ends
      notify 3,
      btsti r1 0,
      bt .endbyteDone]

def script : Program Label := ⟨Label.block, Label.next⟩

end Glowforge.Sdma
