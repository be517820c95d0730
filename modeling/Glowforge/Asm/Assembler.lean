import Glowforge.Asm.InstructionSet

/-! The assembler of the script (`tools/sdma_asm.pl`): the first pass over the source finds
the addresses of the labels, the second makes the words, and the words go in pairs into the
header that the driver includes. -/
namespace Glowforge.Asm
open Foundation

def isBlank (c : Char) : Bool := c = ' ' || c = '\t'

/-- `s/[;\#].*//` -/
def removeComment (line : List Char) : List Char := line.takeWhile fun c => c ≠ ';' && c ≠ '#'

/-- `/^[ \t]*(\w+):(.*)/`, and the label in lower case. -/
def splitLabel (x : List Char) : Option (List Char) × List Char :=
  let rest := x.dropWhile isBlank
  let label := rest.takeWhile isWord
  match rest.dropWhile isWord with
  | ':' :: after => if label ≠ [] then (some (label.map Char.toLower), after) else (none, x)
  | _ => (none, x)

/-- `/^[ \t]*(.*?)[ \t\r\n]*$/` -/
def strip (x : List Char) : List Char :=
  (x.dropWhile isBlank).rdropWhile fun c => isBlank c || c = '\r' || c = '\n'

def isDelimiter (c : Char) : Bool := c = ',' || c = '(' || c = ')'

/-- `s/[ \t]*([,\(\)])[ \t]*/$1/ge`: `blanks` are those that may yet be next to a delimiter,
`after` is whether one has just been passed. -/
def squeeze (blanks : List Char) (after : Bool) : List Char → List Char
  | [] => blanks
  | c :: cs =>
      if isDelimiter c then c :: squeeze [] true cs
      else if isBlank c then
        if after then squeeze [] true cs else squeeze (blanks ++ [c]) false cs
      else blanks ++ c :: squeeze [] false cs

structure Line where
  label : Option (List Char)
  instruction : Option (List Char × List Char)
  deriving DecidableEq, Repr

def parseLine (line : List Char) : Line :=
  let (label, rest) := splitLabel (removeComment line)
  let x := (strip rest).map Char.toLower
  if x = [] then ⟨label, none⟩
  else
    let args := (x.dropWhile fun c => !isBlank c).dropWhile isBlank
    ⟨label, some (x.takeWhile fun c => !isBlank c, squeeze [] false args)⟩

structure Pass where
  labels : List (List Char × Nat)
  objectcode : List Code
  linenum : Nat
  generateCode : Bool
  errors : List String

def errorInLine (linenum : Nat) (e : AsmError) : String :=
  "ERROR in line " ++ toString linenum ++ ": " ++ e.text

/-- The word of an instruction; its arguments matter in the second pass only. -/
def binary (second : Bool) (context : Context) (instruction : List Char × List Char) :
    Except AsmError Code :=
  match Opcode.ofName instruction.1 with
  | none => .error (.unknownOpcode instruction.1)
  | some op =>
      if second then (op.argFn.mangle instruction.2 context).map fun bits => op.base ||| bits
      else .ok op.base

namespace Pass

def define (second : Bool) (p : Pass) : Option (List Char) → Except String Pass
  | none => .ok p
  | some label =>
      if second then .ok p
      else if (p.labels.lookup label).isSome then
        .error (errorInLine p.linenum (.labelDefined label))
      else .ok { p with labels := p.labels ++ [(label, p.objectcode.length)] }

/-- An error takes the code with it, and the second pass reports it. -/
def emit (second : Bool) (p : Pass) : Option (List Char × List Char) → Pass
  | none => p
  | some instruction =>
      match binary second ⟨p.labels, p.objectcode.length⟩ instruction with
      | .error e =>
          { p with
            generateCode := false
            errors := if second then p.errors ++ [errorInLine p.linenum e] else p.errors }
      | .ok word => { p with objectcode := p.objectcode ++ [word] }

def step (second : Bool) (p : Pass) (line : Line) : Except String Pass := do
  let p ← p.define second line.label
  let p := p.emit second line.instruction
  .ok { p with linenum := p.linenum + 1 }

end Pass

def assemble (source : List (List Char)) : Except (List String) (List Code) :=
  let lines := source.map parseLine
  match lines.foldlM (Pass.step false) ⟨[], [], 1, true, []⟩ with
  | .error e => .error [e]
  | .ok first =>
      match lines.foldlM (Pass.step true) { first with objectcode := [], linenum := 1 } with
      | .error e => .error [e]
      | .ok second =>
          if second.generateCode then .ok second.objectcode
          else .error (second.errors ++ ["\n*** No code generated due to error(s) ***\n"])

/-- The 32-bit words of the header: the first of a pair is the upper half, and the last word
of an odd number of them is filled up. -/
def pairs : List Code → List (BitVec 32)
  | [] => []
  | [a] => [a ++ (0 : Code)]
  | a :: b :: rest => (a ++ b) :: pairs rest

end Glowforge.Asm
