import Glowforge.Foundation.Encoding
import Glowforge.Foundation.Scanf
import Mathlib.Data.List.DropRight

/-! The instruction set of the script's assembler (`tools/mx51_sdma_set.pm`): of each opcode
the bits it fixes, and the function that makes the other bits of its word from the arguments
of the line. A line is the list of its characters, in lower case by the time it is here. -/
namespace Glowforge.Asm
open Foundation

abbrev Code := BitVec 16

inductive AsmError where
  | argumentCount (num found : Nat)
  | noRegister (reg : List Char)
  | illegalNumber (arg : List Char)
  | tooBig
  | tooSmall
  | unknownLabel (arg : List Char)
  | loopBehind
  | loopEmpty
  | loopFar
  | takesNoArguments
  | branchOutOfRange
  | noDisplacement
  | negativeDisplacement
  | unknownOpcode (opcode : List Char)
  | labelDefined (label : List Char)
  deriving DecidableEq, Repr

def AsmError.text : AsmError → String
  | .argumentCount num found =>
      "Expected " ++ toString num ++ " arguments, found " ++ toString found ++ "\n"
  | .noRegister reg =>
      "Expected register argument of the form r0, r1, ... r7 (found \"" ++ String.ofList reg ++ "\")\n"
  | .illegalNumber arg => "Argument \"" ++ String.ofList arg ++ "\" is not a legal number\n"
  | .tooBig => "Argument is out of range (too big)\n"
  | .tooSmall => "Negative argument is out of range (to small)\n"
  | .unknownLabel arg =>
      "Argument \"" ++ String.ofList arg ++ "\" is not a legal number nor a known label\n"
  | .loopBehind => "Loop label must be after the statement\n"
  | .loopEmpty => "An empty loop is not legal\n"
  | .loopFar => "Loop label is too far away\n"
  | .takesNoArguments => "This opcode takes no arguments\n"
  | .branchOutOfRange => "Branch address is out of range\n"
  | .noDisplacement => "Expected arguments in the format ra, (rb, displacement)\n"
  | .negativeDisplacement => "Negative displacement is illegal\n"
  | .unknownOpcode opcode => "Unknown opcode \"" ++ String.ofList opcode ++ "\"\n"
  | .labelDefined label => "Label \"" ++ String.ofList label ++ "\" previously defined\n"

/-- `$context` of the second pass: the labels, and how many words come before this one. -/
structure Context where
  labels : List (List Char × Nat)
  objectcode : Nat

/-! General-purpose functions. -/

/-- `split /,/`, which drops empty fields at the end. -/
def splitCommas (arg : List Char) : List (List Char) :=
  (arg.splitOn ',').rdropWhile fun field => decide (field = [])

def numsplit (arg : List Char) (num : Nat) : Except AsmError (Fin num → List Char) :=
  let args := splitCommas arg
  if h : args.length = num then .ok fun i => args.get (i.cast h.symm)
  else .error (.argumentCount num args.length)

def oneRegister (reg : List Char) : Except AsmError Nat :=
  match reg with
  | ['r', d] =>
      match Scanf.digit 10 d with
      | some num => if num < 8 then .ok num else .error (.noRegister reg)
      | none => .error (.noRegister reg)
  | _ => .error (.noRegister reg)

def isNumber (base : Nat) (ds : List Char) : Bool :=
  decide (ds ≠ []) && ds.all (Scanf.isDigit base)

/-- `/^-{0,1}\d+$/` -/
def getDecimal : List Char → Option Int
  | '-' :: ds => if isNumber 10 ds then some (-(Scanf.denote 10 ds : Int)) else none
  | ds => if isNumber 10 ds then some (Scanf.denote 10 ds) else none

def getNumber (arg : List Char) : Option Int :=
  match arg with
  | '0' :: 'x' :: ds => if isNumber 16 ds then some (Scanf.denote 16 ds) else getDecimal arg
  | _ => getDecimal arg

def numericArg (arg : List Char) (bits : Nat) : Except AsmError Int :=
  match getNumber arg with
  | none => .error (.illegalNumber arg)
  | some num =>
      if num ≥ 2 ^ bits then .error .tooBig
      else if num < -2 ^ (bits - 1) then .error .tooSmall
      else .ok num

/-- A label is a distance from the word after this one; its range is the caller's. -/
def numericArgOrLabel (arg : List Char) (context : Context) : Except AsmError Int :=
  match getNumber arg with
  | some num => .ok num
  | none =>
      match context.labels.lookup arg with
      | none => .error (.unknownLabel arg)
      | some labeladdr => .ok (labeladdr - (context.objectcode + 1 : Nat))

/-! Argument mangling functions. -/

def a0x14 (args : List Char) : Except AsmError Code := do
  let vals ← numsplit args 1
  let a ← numericArg (vals 0) 14
  .ok (BitField.put 16 ⟨0, 14⟩ a)

def f8x2 (args : List Char) : Except AsmError Code := do
  let vals ← numsplit args 1
  let f ← numericArg (vals 0) 2
  .ok (BitField.put 16 ⟨8, 2⟩ f)

def f8x2n0x8 (args : List Char) (context : Context) : Except AsmError Code := do
  let vals ← numsplit args 2
  let n ← numericArgOrLabel (vals 0) context
  let f ← numericArg (vals 1) 2
  if n < 0 then .error .loopBehind
  else if n = 0 then .error .loopEmpty
  else if n > 255 then .error .loopFar
  else .ok (BitField.put 16 ⟨8, 2⟩ f ||| BitField.put 16 ⟨0, 8⟩ n)

def j8x3 (args : List Char) : Except AsmError Code := do
  let vals ← numsplit args 1
  let j ← numericArg (vals 0) 3
  .ok (BitField.put 16 ⟨8, 3⟩ j)

def noargs (args : List Char) : Except AsmError Code :=
  if args ≠ [] then .error .takesNoArguments else .ok 0

def p0x8 (args : List Char) (context : Context) : Except AsmError Code := do
  let vals ← numsplit args 1
  let p ← numericArgOrLabel (vals 0) context
  if p > 127 ∨ p < -128 then .error .branchOutOfRange
  else .ok (BitField.put 16 ⟨0, 8⟩ p)

def r8x3 (args : List Char) : Except AsmError Code := do
  let vals ← numsplit args 1
  let r ← oneRegister (vals 0)
  .ok (BitField.put 16 ⟨8, 3⟩ r)

/-- `\w` -/
def isWord (c : Char) : Bool := c.isAlphanum || c = '_'

/-- `/^(\w+),\((\w+),(\w+)\)$/`: no word character is one of those between the words. -/
def displacementArgs (args : List Char) : Option (List Char × List Char × List Char) :=
  let ra := args.takeWhile isWord
  match args.dropWhile isWord with
  | ',' :: '(' :: rest =>
      let rb := rest.takeWhile isWord
      match rest.dropWhile isWord with
      | ',' :: rest =>
          let d := rest.takeWhile isWord
          if ra ≠ [] ∧ rb ≠ [] ∧ d ≠ [] ∧ rest.dropWhile isWord = [')'] then some (ra, rb, d)
          else none
      | _ => none
  | _ => none

def r8x3d3x5b0x3 (args : List Char) : Except AsmError Code :=
  match displacementArgs args with
  | none => .error .noDisplacement
  | some (ra, rb, displacement) => do
      let r ← oneRegister ra
      let d ← numericArg displacement 5
      let b ← oneRegister rb
      if d < 0 then .error .negativeDisplacement
      else .ok (BitField.put 16 ⟨8, 3⟩ r ||| BitField.put 16 ⟨3, 5⟩ d ||| BitField.put 16 ⟨0, 3⟩ b)

def r8x3i0x8 (args : List Char) : Except AsmError Code := do
  let vals ← numsplit args 2
  let r ← oneRegister (vals 0)
  let i ← numericArg (vals 1) 8
  .ok (BitField.put 16 ⟨8, 3⟩ r ||| BitField.put 16 ⟨0, 8⟩ i)

def r8x3n0x5 (args : List Char) : Except AsmError Code := do
  let vals ← numsplit args 2
  let r ← oneRegister (vals 0)
  let n ← numericArg (vals 1) 5
  .ok (BitField.put 16 ⟨8, 3⟩ r ||| BitField.put 16 ⟨0, 5⟩ n)

def r8x3s0x3 (args : List Char) : Except AsmError Code := do
  let vals ← numsplit args 2
  let r ← oneRegister (vals 0)
  let s ← oneRegister (vals 1)
  .ok (BitField.put 16 ⟨8, 3⟩ r ||| BitField.put 16 ⟨0, 3⟩ s)

def r8x3u0x8 (args : List Char) : Except AsmError Code := do
  let vals ← numsplit args 2
  let r ← oneRegister (vals 0)
  let u ← numericArg (vals 1) 8
  .ok (BitField.put 16 ⟨8, 3⟩ r ||| BitField.put 16 ⟨0, 8⟩ u)

inductive ArgFn where
  | j8x3
  | noargs
  | f8x2
  | r8x3
  | r8x3n0x5
  | r8x3s0x3
  | r8x3i0x8
  | r8x3d3x5b0x3
  | r8x3u0x8
  | f8x2n0x8
  | p0x8
  | a0x14
  deriving DecidableEq, Repr

namespace ArgFn

def mangle (args : List Char) (context : Context) : ArgFn → Except AsmError Code
  | .j8x3 => Asm.j8x3 args
  | .noargs => Asm.noargs args
  | .f8x2 => Asm.f8x2 args
  | .r8x3 => Asm.r8x3 args
  | .r8x3n0x5 => Asm.r8x3n0x5 args
  | .r8x3s0x3 => Asm.r8x3s0x3 args
  | .r8x3i0x8 => Asm.r8x3i0x8 args
  | .r8x3d3x5b0x3 => Asm.r8x3d3x5b0x3 args
  | .r8x3u0x8 => Asm.r8x3u0x8 args
  | .f8x2n0x8 => Asm.f8x2n0x8 args context
  | .p0x8 => Asm.p0x8 args context
  | .a0x14 => Asm.a0x14 args

def fields : ArgFn → List BitField
  | .j8x3 | .r8x3 => [⟨8, 3⟩]
  | .noargs => []
  | .f8x2 => [⟨8, 2⟩]
  | .r8x3n0x5 => [⟨8, 3⟩, ⟨0, 5⟩]
  | .r8x3s0x3 => [⟨8, 3⟩, ⟨0, 3⟩]
  | .r8x3i0x8 | .r8x3u0x8 => [⟨8, 3⟩, ⟨0, 8⟩]
  | .r8x3d3x5b0x3 => [⟨8, 3⟩, ⟨3, 5⟩, ⟨0, 3⟩]
  | .f8x2n0x8 => [⟨8, 2⟩, ⟨0, 8⟩]
  | .p0x8 => [⟨0, 8⟩]
  | .a0x14 => [⟨0, 14⟩]

def free (f : ArgFn) : Code := f.fields.foldl (fun bits g => bits ||| g.bits 16) 0

end ArgFn

inductive Opcode where
  | done
  | yield
  | yieldge
  | notify
  | softbkpt
  | ret
  | clrf
  | illegal
  | jmpr
  | jsrr
  | ldrpc
  | revb
  | revblo
  | rorb
  | ror1
  | lsr1
  | asr1
  | lsl1
  | bclri
  | bseti
  | btsti
  | mov
  | xor
  | add
  | sub
  | or
  | andn
  | and
  | tst
  | cmpeq
  | cmplt
  | cmphs
  | cpshreg
  | ldi
  | xori
  | addi
  | subi
  | ori
  | andni
  | andi
  | tsti
  | cmpeqi
  | ld
  | st
  | ldf
  | stf
  | loop
  | bf
  | bt
  | bsf
  | bdf
  | jmp
  | jsr
  deriving DecidableEq, Repr

namespace Opcode

def all : List Opcode :=
  [.done, .yield, .yieldge, .notify, .softbkpt, .ret, .clrf, .illegal, .jmpr, .jsrr, .ldrpc, .revb,
    .revblo, .rorb, .ror1, .lsr1, .asr1, .lsl1, .bclri, .bseti, .btsti, .mov, .xor, .add, .sub, .or,
    .andn, .and, .tst, .cmpeq, .cmplt, .cmphs, .cpshreg, .ldi, .xori, .addi, .subi, .ori, .andni,
    .andi, .tsti, .cmpeqi, .ld, .st, .ldf, .stf, .loop, .bf, .bt, .bsf, .bdf, .jmp, .jsr]

/-- `%instructions`: the key, the opcode bits and the argument function. -/
def entry : Opcode → String × Code × ArgFn
  | .done => ("done", 0x0000, .j8x3)
  | .yield => ("yield", 0x0000, .noargs)
  | .yieldge => ("yieldge", 0x0100, .noargs)
  | .notify => ("notify", 0x0001, .j8x3)
  | .softbkpt => ("softbkpt", 0x0005, .noargs)
  | .ret => ("ret", 0x0006, .noargs)
  | .clrf => ("clrf", 0x0007, .f8x2)
  | .illegal => ("illegal", 0x0707, .noargs)
  | .jmpr => ("jmpr", 0x0008, .r8x3)
  | .jsrr => ("jsrr", 0x0009, .r8x3)
  | .ldrpc => ("ldrpc", 0x000a, .r8x3)
  | .revb => ("revb", 0x0010, .r8x3)
  | .revblo => ("revblo", 0x0011, .r8x3)
  | .rorb => ("rorb", 0x0012, .r8x3)
  | .ror1 => ("ror1", 0x0014, .r8x3)
  | .lsr1 => ("lsr1", 0x0015, .r8x3)
  | .asr1 => ("asr1", 0x0016, .r8x3)
  | .lsl1 => ("lsl1", 0x0017, .r8x3)
  | .bclri => ("bclri", 0x0020, .r8x3n0x5)
  | .bseti => ("bseti", 0x0040, .r8x3n0x5)
  | .btsti => ("btsti", 0x0060, .r8x3n0x5)
  | .mov => ("mov", 0x0088, .r8x3s0x3)
  | .xor => ("xor", 0x0090, .r8x3s0x3)
  | .add => ("add", 0x0098, .r8x3s0x3)
  | .sub => ("sub", 0x00a0, .r8x3s0x3)
  | .or => ("or", 0x00a8, .r8x3s0x3)
  | .andn => ("andn", 0x00b0, .r8x3s0x3)
  | .and => ("and", 0x00b8, .r8x3s0x3)
  | .tst => ("tst", 0x00c0, .r8x3s0x3)
  | .cmpeq => ("cmpeq", 0x00c8, .r8x3s0x3)
  | .cmplt => ("cmplt", 0x00d0, .r8x3s0x3)
  | .cmphs => ("cmphs", 0x00d8, .r8x3s0x3)
  | .cpshreg => ("cpshreg", 0x06e2, .noargs)
  | .ldi => ("ldi", 0x0800, .r8x3i0x8)
  | .xori => ("xori", 0x1000, .r8x3i0x8)
  | .addi => ("addi", 0x1800, .r8x3i0x8)
  | .subi => ("subi", 0x2000, .r8x3i0x8)
  | .ori => ("ori", 0x2800, .r8x3i0x8)
  | .andni => ("andni", 0x3000, .r8x3i0x8)
  | .andi => ("andi", 0x3800, .r8x3i0x8)
  | .tsti => ("tsti", 0x4000, .r8x3i0x8)
  | .cmpeqi => ("cmpeqi", 0x4800, .r8x3i0x8)
  | .ld => ("ld", 0x5000, .r8x3d3x5b0x3)
  | .st => ("st", 0x5800, .r8x3d3x5b0x3)
  | .ldf => ("ldf", 0x6000, .r8x3u0x8)
  | .stf => ("stf", 0x6800, .r8x3u0x8)
  | .loop => ("loop", 0x7800, .f8x2n0x8)
  | .bf => ("bf", 0x7c00, .p0x8)
  | .bt => ("bt", 0x7d00, .p0x8)
  | .bsf => ("bsf", 0x7e00, .p0x8)
  | .bdf => ("bdf", 0x7f00, .p0x8)
  | .jmp => ("jmp", 0x8000, .a0x14)
  | .jsr => ("jsr", 0xc000, .a0x14)

def name (op : Opcode) : List Char := op.entry.1.toList

def base (op : Opcode) : Code := op.entry.2.1

def argFn (op : Opcode) : ArgFn := op.entry.2.2

/-- `$instructref->{$opcode}` -/
def ofName (opcode : List Char) : Option Opcode := all.find? fun op => op.name = opcode

theorem mem_all (op : Opcode) : op ∈ all := by
  cases op <;> decide

end Opcode

end Glowforge.Asm
