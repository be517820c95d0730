import Glowforge.Asm.Assembler

/-! What the two passes come to. Source is accepted exactly if no label is defined twice and
every instruction can be made a word when each label stands for the number of instructions
before it; the words are then those of the instructions, in order. -/
namespace Glowforge.Asm
open Foundation

def instructions (lines : List Line) : List (List Char × List Char) :=
  lines.filterMap Line.instruction

/-- The labels of the source, and how many instructions are before each, from `n` on. -/
def addresses (n : Nat) : List Line → List (List Char × Nat)
  | [] => []
  | line :: lines =>
      (line.label.map fun l => (l, n)).toList ++ addresses (n + line.instruction.toList.length) lines

/-- Each instruction's word, with the labels where they are. -/
def WordOf (labels : List (List Char × Nat)) (instruction : (List Char × List Char) × Nat)
    (word : Code) : Prop :=
  binary true ⟨labels, instruction.2⟩ instruction.1 = .ok word

structure Assembled (lines : List Line) (code : List Code) : Prop where
  distinct : ((addresses 0 lines).map Prod.fst).Nodup
  words : List.Forall₂ (WordOf (addresses 0 lines)) (instructions lines).zipIdx code

@[simp] theorem instructions_cons (line : Line) (lines : List Line) :
    instructions (line :: lines) = line.instruction.toList ++ instructions lines := by
  unfold instructions
  cases h : line.instruction with
  | none => rw [List.filterMap_cons_none h, Option.toList_none, List.nil_append]
  | some i => rw [List.filterMap_cons_some h, Option.toList_some, List.singleton_append]

theorem lookup_isSome {labels : List (List Char × Nat)} {label : List Char} :
    (labels.lookup label).isSome ↔ label ∈ labels.map Prod.fst := by
  rw [List.lookup_isSome_iff, List.mem_map]
  constructor
  · rintro ⟨p, hp, heq⟩
    exact ⟨p, hp, (beq_iff_eq.mp heq).symm⟩
  · rintro ⟨p, hp, rfl⟩
    exact ⟨p, hp, beq_self_eq_true p.1⟩

/-! The first pass: it goes through unless a label comes again. -/

namespace Pass

theorem emit_generateCode {second : Bool} {p : Pass} {i : Option (List Char × List Char)}
    (h : (p.emit second i).generateCode = true) : p.generateCode = true := by
  unfold emit at h
  split at h
  · exact h
  · split at h
    · cases h
    · exact h

@[simp] theorem emit_labels (second : Bool) (p : Pass) (i : Option (List Char × List Char)) :
    (p.emit second i).labels = p.labels := by
  unfold emit
  split
  · rfl
  · split <;> rfl

theorem emit_word {second : Bool} {p : Pass} {i : List Char × List Char}
    (h : (p.emit second (some i)).generateCode = true) :
    ∃ word, binary second ⟨p.labels, p.objectcode.length⟩ i = .ok word ∧
      p.emit second (some i) = { p with objectcode := p.objectcode ++ [word] } := by
  unfold emit at h ⊢
  simp only at h ⊢
  split at h
  · cases h
  · next word hword => exact ⟨word, hword, rfl⟩

theorem define_second (p : Pass) (label : Option (List Char)) : p.define true label = .ok p := by
  cases label <;> rfl

theorem step_second (p : Pass) (line : Line) :
    p.step true line = .ok { p.emit true line.instruction with
      linenum := (p.emit true line.instruction).linenum + 1 } := by
  unfold step
  rw [define_second]
  rfl

def defined (p : Pass) (label : Option (List Char)) : Pass :=
  { p with labels := p.labels ++ (label.map fun l => (l, p.objectcode.length)).toList }

theorem define_first {p : Pass} {label : Option (List Char)}
    (h : ∀ l ∈ label, l ∉ p.labels.map Prod.fst) : p.define false label = .ok (p.defined label) := by
  cases label with
  | none =>
      rw [defined, Option.map_none, Option.toList_none, List.append_nil]
      rfl
  | some label =>
      have hnew : ¬ (p.labels.lookup label).isSome = true := by
        rw [lookup_isSome]
        exact h label rfl
      rw [define, if_neg Bool.false_ne_true, if_neg hnew]
      rfl

theorem define_first_fails {p : Pass} {label : List Char} (h : label ∈ p.labels.map Prod.fst) :
    ∃ e, p.define false (some label) = .error e := by
  rw [← lookup_isSome] at h
  exact ⟨_, by rw [define, if_neg Bool.false_ne_true, if_pos h]⟩

theorem step_first {p : Pass} {line : Line} (h : ∀ l ∈ line.label, l ∉ p.labels.map Prod.fst) :
    p.step false line = .ok { (p.defined line.label).emit false line.instruction with
      linenum := ((p.defined line.label).emit false line.instruction).linenum + 1 } := by
  unfold step
  rw [define_first h]
  rfl

theorem step_first_fails {p : Pass} {line : Line} {l : List Char} (hl : line.label = some l)
    (h : l ∈ p.labels.map Prod.fst) : ∃ e, p.step false line = .error e := by
  obtain ⟨e, he⟩ := define_first_fails h
  exact ⟨e, by unfold step; rw [hl, he]; rfl⟩

theorem emit_second {p : Pass} {i : List Char × List Char} {word : Code}
    (h : binary true ⟨p.labels, p.objectcode.length⟩ i = .ok word) :
    p.emit true (some i) = { p with objectcode := p.objectcode ++ [word] } := by
  unfold emit
  simp only [h]

theorem emit_error {second : Bool} {p : Pass} {i : List Char × List Char} {e : AsmError}
    (h : binary second ⟨p.labels, p.objectcode.length⟩ i = .error e) :
    (p.emit second (some i)).generateCode = false := by
  unfold emit
  simp only [h]

end Pass

theorem addresses_fst (n : Nat) (lines : List Line) :
    (addresses n lines).map Prod.fst = lines.filterMap Line.label := by
  induction lines generalizing n with
  | nil => rfl
  | cons line lines ih =>
      rw [addresses, List.map_append, ih]
      cases h : line.label with
      | none => rw [List.filterMap_cons_none h]; rfl
      | some l => rw [List.filterMap_cons_some h]; rfl

theorem first_pass {lines : List Line} {p : Pass} (hp : (p.labels.map Prod.fst).Nodup) :
    (∃ q, lines.foldlM (Pass.step false) p = .ok q) ↔
      (p.labels.map Prod.fst ++ lines.filterMap Line.label).Nodup := by
  induction lines generalizing p with
  | nil =>
      rw [List.filterMap_nil, List.append_nil]
      exact ⟨fun _ => hp, fun _ => ⟨p, rfl⟩⟩
  | cons line lines ih =>
      rw [List.foldlM_cons]
      cases hline : line.label with
      | none =>
          have hfresh : ∀ l ∈ line.label, l ∉ p.labels.map Prod.fst := by simp [hline]
          rw [Pass.step_first hfresh, List.filterMap_cons_none hline]
          refine (ih ?_).trans ?_
          · simpa [Pass.defined, hline] using hp
          · simp [Pass.defined, hline]
      | some label =>
          rw [List.filterMap_cons_some hline]
          by_cases hold : label ∈ p.labels.map Prod.fst
          · obtain ⟨e, he⟩ := Pass.step_first_fails hline hold
            rw [he]
            refine iff_of_false (by rintro ⟨q, hq⟩; cases hq) fun h => ?_
            exact List.disjoint_of_nodup_append h hold List.mem_cons_self
          · have hfresh : ∀ l ∈ line.label, l ∉ p.labels.map Prod.fst := by
              intro l hl
              rw [hline] at hl
              cases hl
              exact hold
            rw [Pass.step_first hfresh]
            refine (ih ?_).trans ?_
            · simp only [Pass.defined, hline, Pass.emit_labels, List.map_append]
              exact List.nodup_append.mpr ⟨hp, by simp, by
                rintro a ha b hb rfl
                simp at hb
                exact hold (hb ▸ ha)⟩
            · simp only [Pass.defined, hline, Pass.emit_labels, List.map_append, List.append_assoc]
              rfl

/-- Through with code, it has every label at its address, and has had every opcode. -/
theorem first_pass_code {lines : List Line} {p q : Pass}
    (h : lines.foldlM (Pass.step false) p = .ok q) (hq : q.generateCode = true) :
    p.generateCode = true ∧ q.labels = p.labels ++ addresses p.objectcode.length lines := by
  induction lines generalizing p with
  | nil =>
      cases h
      exact ⟨hq, (List.append_nil _).symm⟩
  | cons line lines ih =>
      rw [List.foldlM_cons] at h
      have hfresh : ∀ l ∈ line.label, l ∉ p.labels.map Prod.fst := by
        intro l hl hold
        obtain ⟨e, he⟩ := Pass.step_first_fails hl hold
        rw [he] at h
        cases h
      rw [Pass.step_first hfresh] at h
      obtain ⟨hcode, hlabels⟩ := ih h
      refine ⟨Pass.emit_generateCode (p := p.defined line.label) hcode, ?_⟩
      rw [hlabels, Pass.emit_labels, Pass.defined, List.append_assoc, addresses]
      congr 3
      cases hi : line.instruction with
      | none => rfl
      | some i =>
          rw [hi] at hcode
          obtain ⟨word, -, hemit⟩ := Pass.emit_word (p := p.defined line.label) hcode
          simp only [Pass.defined] at hemit ⊢
          rw [hemit]
          simp

theorem first_pass_keeps {lines : List Line} {p q : Pass}
    (h : lines.foldlM (Pass.step false) p = .ok q) (hp : p.generateCode = true)
    (hknown : ∀ i ∈ instructions lines, ∃ op, Opcode.ofName i.1 = some op) :
    q.generateCode = true := by
  induction lines generalizing p with
  | nil =>
      cases h
      exact hp
  | cons line lines ih =>
      rw [List.foldlM_cons] at h
      have hfresh : ∀ l ∈ line.label, l ∉ p.labels.map Prod.fst := by
        intro l hl hold
        obtain ⟨e, he⟩ := Pass.step_first_fails hl hold
        rw [he] at h
        cases h
      rw [Pass.step_first hfresh] at h
      refine ih h ?_ fun i hi => hknown i ?_
      · cases hi : line.instruction with
        | none => exact hp
        | some i =>
            obtain ⟨op, hop⟩ := hknown i (by simp [hi])
            simp [Pass.emit, binary, hop, Pass.defined, hp]
      · rw [instructions_cons]
        exact List.mem_append_right _ hi

theorem second_pass (lines : List Line) (p : Pass) :
    ∃ q, lines.foldlM (Pass.step true) p = .ok q ∧ ∀ code,
      (q.generateCode = true ∧ q.objectcode = code) ↔ p.generateCode = true ∧ ∃ words,
        List.Forall₂ (WordOf p.labels) ((instructions lines).zipIdx p.objectcode.length) words ∧
          code = p.objectcode ++ words := by
  induction lines generalizing p with
  | nil =>
      refine ⟨p, rfl, fun code => ?_⟩
      constructor
      · rintro ⟨hcode, rfl⟩
        exact ⟨hcode, [], .nil, (List.append_nil _).symm⟩
      · rintro ⟨hcode, words, hwords, rfl⟩
        cases hwords
        exact ⟨hcode, (List.append_nil _).symm⟩
  | cons line lines ih =>
      rw [List.foldlM_cons, Pass.step_second, instructions_cons]
      cases hi : line.instruction with
      | none => exact ih { p with linenum := p.linenum + 1 }
      | some i =>
          rw [Option.toList_some, List.singleton_append, List.zipIdx_cons]
          obtain ⟨q, hq, hcode⟩ := ih { p.emit true (some i) with
            linenum := (p.emit true (some i)).linenum + 1 }
          refine ⟨q, hq, fun code => (hcode code).trans ?_⟩
          cases hword : binary true ⟨p.labels, p.objectcode.length⟩ i with
          | error e =>
              have hlost := Pass.emit_error hword
              refine iff_of_false ?_ ?_
              · rintro ⟨hkept, -⟩
                exact Bool.false_ne_true (hlost.symm.trans hkept)
              · rintro ⟨-, words, hwords, -⟩
                cases hwords with
                | cons hhead _ =>
                    rw [WordOf, hword] at hhead
                    cases hhead
          | ok word =>
              rw [Pass.emit_second hword]
              refine and_congr_right fun _ => ?_
              constructor
              · rintro ⟨words, hwords, rfl⟩
                rw [List.length_append, List.length_singleton] at hwords
                exact ⟨word :: words, .cons hword hwords, List.append_assoc ..⟩
              · rintro ⟨words, hwords, rfl⟩
                cases hwords with
                | cons hhead htail =>
                    obtain rfl := Except.ok.inj (hword.symm.trans hhead)
                    refine ⟨_, ?_, List.append_cons ..⟩
                    rw [List.length_append, List.length_singleton]
                    exact htail

theorem WordOf.known {labels : List (List Char × Nat)} {instruction : (List Char × List Char) × Nat}
    {word : Code} (h : WordOf labels instruction word) :
    ∃ op, Opcode.ofName instruction.1.1 = some op := by
  unfold WordOf binary at h
  cases hop : Opcode.ofName instruction.1.1 with
  | none => rw [hop] at h; cases h
  | some op => exact ⟨op, rfl⟩

theorem exists_word {labels : List (List Char × Nat)} {is : List (List Char × List Char)} {n : Nat}
    {code : List Code} (h : List.Forall₂ (WordOf labels) (is.zipIdx n) code)
    {i : List Char × List Char} (hi : i ∈ is) : ∃ k word, WordOf labels (i, k) word := by
  induction is generalizing n code with
  | nil => cases hi
  | cons j is ih =>
      rw [List.zipIdx_cons] at h
      cases h with
      | cons hhead htail =>
          rcases List.mem_cons.mp hi with rfl | hi
          · exact ⟨n, _, hhead⟩
          · exact ih htail hi

theorem through_first_pass (lines : List Line) :
    (∃ q, lines.foldlM (Pass.step false) ⟨[], [], 1, true, []⟩ = .ok q) ↔
      ((addresses 0 lines).map Prod.fst).Nodup := by
  rw [addresses_fst]
  exact first_pass .nil

theorem assemble_second {source : List (List Char)} {first : Pass} (code : List Code)
    (h : (source.map parseLine).foldlM (Pass.step false) ⟨[], [], 1, true, []⟩ = .ok first) :
    assemble source = .ok code ↔ first.generateCode = true ∧
      List.Forall₂ (WordOf first.labels) (instructions (source.map parseLine)).zipIdx code := by
  obtain ⟨second, hsecond, hcode⟩ := second_pass (source.map parseLine)
    { first with objectcode := [], linenum := 1 }
  have hresult : assemble source = .ok code ↔ second.generateCode = true ∧
      second.objectcode = code := by
    unfold assemble
    simp only [h, hsecond]
    split <;> simp_all
  rw [hresult, hcode]
  simp

theorem assembled_of_assemble {source : List (List Char)} {code : List Code}
    (h : assemble source = .ok code) : Assembled (source.map parseLine) code := by
  cases hfirst : (source.map parseLine).foldlM (Pass.step false) ⟨[], [], 1, true, []⟩ with
  | error e =>
      unfold assemble at h
      simp only [hfirst] at h
      cases h
  | ok first =>
      obtain ⟨hkept, hwords⟩ := (assemble_second code hfirst).mp h
      obtain ⟨-, hlabels⟩ := first_pass_code hfirst hkept
      refine ⟨(through_first_pass _).mp ⟨first, hfirst⟩, ?_⟩
      rwa [hlabels] at hwords

theorem assemble_of_assembled {source : List (List Char)} {code : List Code}
    (h : Assembled (source.map parseLine) code) : assemble source = .ok code := by
  obtain ⟨first, hfirst⟩ := (through_first_pass _).mpr h.distinct
  have hknown : ∀ i ∈ instructions (source.map parseLine), ∃ op, Opcode.ofName i.1 = some op := by
    intro i hi
    obtain ⟨k, word, hword⟩ := exists_word h.words hi
    exact hword.known
  have hkept := first_pass_keeps hfirst rfl hknown
  obtain ⟨-, hlabels⟩ := first_pass_code hfirst hkept
  refine (assemble_second code hfirst).mpr ⟨hkept, ?_⟩
  rw [hlabels]
  exact h.words

/-- Source is assembled exactly if no label comes twice and every instruction has a word, and
then to these words. -/
theorem assemble_eq_ok_iff (source : List (List Char)) (code : List Code) :
    assemble source = .ok code ↔ Assembled (source.map parseLine) code :=
  ⟨assembled_of_assemble, assemble_of_assembled⟩

end Glowforge.Asm
