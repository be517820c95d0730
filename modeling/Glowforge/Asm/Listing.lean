import Glowforge.Asm.Decode
import Mathlib.Data.List.Chain

/-! Source that lists a program. Its lines are read for labels and instructions; if that is
a program's blocks under the names of their labels, then the words it is assembled to hold
each instruction where its block has it, with the distances between the blocks. -/
namespace Glowforge.Asm
open Foundation Sdma

variable {L M : Type}

inductive Item (L : Type) where
  | label (l : L)
  | instr (i : Instr L)
  deriving DecidableEq, Repr

namespace Item

def relabel (name : L → M) : Item L → Item M
  | .label l => .label (name l)
  | .instr i => .instr (i.relabel name)

def instr? : Item L → Option (Instr L)
  | .label _ => none
  | .instr i => some i

end Item

def readLine (line : Line) : Option (List (Item (List Char))) :=
  match line.instruction with
  | none => some (line.label.toList.map .label)
  | some instruction =>
      (readInstr instruction).map fun i => line.label.toList.map .label ++ [.instr i]

def readSource : List Line → Option (List (Item (List Char)))
  | [] => some []
  | line :: lines => do
      let here ← readLine line
      let rest ← readSource lines
      some (here ++ rest)

/-- Each label, and how many instructions are before it, from `n` on. -/
def marks (n : Nat) : List (Item L) → List (L × Nat)
  | [] => []
  | .label l :: items => (l, n) :: marks n items
  | .instr _ :: items => marks (n + 1) items

def listing (P : Program L) (order : List L) : List (Item L) :=
  order.flatMap fun l => .label l :: (P.block l).map .instr

def address [DecidableEq L] (P : Program L) (order : List L) (l : L) : Nat :=
  ((order.takeWhile fun l' => l' ≠ l).flatMap P.block).length

def displacement [DecidableEq L] (P : Program L) (order : List L) (k : Nat) (l : L) : Int :=
  (address P order l : Int) - (k + 1 : Nat)

/-- The source is the program's, in the given order of its blocks. A loop's body is the
rest of its block. -/
structure Lists [DecidableEq L] (lines : List Line) (P : Program L) (order : List L)
    (name : L → List Char) : Prop where
  complete : ∀ l, l ∈ order
  nodup : order.Nodup
  next : order.IsChain fun l l' => P.next l = some l'
  last : ∀ l ∈ order.getLast?, P.next l = none
  loops : ∀ l l' f, Instr.loop l' f ∈ P.block l → P.next l = some l'
  injective : Function.Injective name
  reads : readSource lines = some ((listing P order).map (Item.relabel name))

theorem readLine_eq {line : Line} {items : List (Item (List Char))} (h : readLine line = some items) :
    (∀ n rest, marks n (items ++ rest) = (line.label.map fun l => (l, n)).toList ++
      marks (n + line.instruction.toList.length) rest) ∧
    List.Forall₂ (fun i instr => readInstr i = some instr) line.instruction.toList
      (items.filterMap Item.instr?) := by
  unfold readLine at h
  cases hi : line.instruction with
  | none =>
      rw [hi] at h
      cases h
      cases line.label with
      | none => exact ⟨fun n rest => rfl, .nil⟩
      | some l => exact ⟨fun n rest => rfl, .nil⟩
  | some i =>
      rw [hi] at h
      obtain ⟨instr, hinstr, rfl⟩ := Option.map_eq_some_iff.mp h
      cases line.label with
      | none => exact ⟨fun n rest => rfl, .cons hinstr .nil⟩
      | some l => exact ⟨fun n rest => rfl, .cons hinstr .nil⟩

theorem readSource_eq {lines : List Line} {items : List (Item (List Char))}
    (h : readSource lines = some items) (n : Nat) :
    addresses n lines = marks n items ∧
      List.Forall₂ (fun i instr => readInstr i = some instr) (instructions lines)
        (items.filterMap Item.instr?) := by
  induction lines generalizing items n with
  | nil =>
      cases h
      exact ⟨rfl, .nil⟩
  | cons line lines ih =>
      unfold readSource at h
      simp only [Option.bind_eq_bind, Option.bind_eq_some_iff, Option.some.injEq] at h
      obtain ⟨here, hhere, rest, hrest, rfl⟩ := h
      obtain ⟨hmarks, hread⟩ := readLine_eq hhere
      obtain ⟨haddresses, hinstrs⟩ := ih hrest (n + line.instruction.toList.length)
      constructor
      · rw [addresses, hmarks, haddresses]
      · rw [instructions_cons, List.filterMap_append]
        exact List.rel_append hread hinstrs

theorem split_of_mem {order : List L} {l : L} (hl : l ∈ order) (hnodup : order.Nodup) :
    ∃ before after, order = before ++ l :: after ∧ l ∉ before := by
  obtain ⟨before, after, heq⟩ := List.append_of_mem hl
  refine ⟨before, after, heq, fun hmem => ?_⟩
  rw [heq] at hnodup
  exact List.disjoint_of_nodup_append hnodup hmem List.mem_cons_self

theorem marks_instrs (n : Nat) (is : List (Instr L)) (rest : List (Item L)) :
    marks n (is.map Item.instr ++ rest) = marks (n + is.length) rest := by
  induction is generalizing n with
  | nil => rfl
  | cons i is ih =>
      rw [List.map_cons, List.cons_append, marks, ih, List.length_cons, Nat.add_assoc, Nat.add_comm 1]

theorem map_listing_cons (P : Program L) (name : L → M) (l : L) (order : List L) :
    (listing P (l :: order)).map (Item.relabel name) =
      .label (name l) :: (((P.block l).map (Instr.relabel name)).map .instr ++
        (listing P order).map (Item.relabel name)) := by
  simp [listing, Item.relabel, Function.comp_def]

theorem instrs_listing (P : Program L) (name : L → M) (order : List L) :
    ((listing P order).map (Item.relabel name)).filterMap Item.instr? =
      (order.flatMap P.block).map (Instr.relabel name) := by
  induction order with
  | nil => rfl
  | cons l order ih =>
      have hinstrs (is : List (Instr M)) : (is.map Item.instr).filterMap Item.instr? = is := by
        rw [List.filterMap_map]
        exact List.filterMap_some
      rw [map_listing_cons, List.filterMap_cons_none rfl, List.filterMap_append, hinstrs, ih,
        List.flatMap_cons, List.map_append]

section Blocks

variable [DecidableEq L] {P : Program L} {order : List L}

theorem address_split {before after : List L} {l : L} (h : order = before ++ l :: after)
    (hnew : l ∉ before) : address P order l = (before.flatMap P.block).length := by
  have hall : ∀ a ∈ before, decide (a ≠ l) = true := by
    intro a ha
    exact decide_eq_true fun heq => hnew (heq ▸ ha)
  rw [address, h, List.takeWhile_append_of_pos hall, List.takeWhile_cons_of_neg (by simp),
    List.append_nil]

omit [DecidableEq L] in
theorem lookup_marks {name : L → List Char} (hname : Function.Injective name) {before : List L}
    (after : List L) {l : L} (hnew : l ∉ before) (n : Nat) :
    (marks n ((listing P (before ++ l :: after)).map (Item.relabel name))).lookup (name l) =
      some (n + (before.flatMap P.block).length) := by
  induction before generalizing n with
  | nil =>
      rw [List.nil_append, map_listing_cons, marks, List.lookup_cons, beq_self_eq_true]
      rfl
  | cons l' before ih =>
      have hne : (name l == name l') = false :=
        beq_false_of_ne fun heq => hnew (hname heq ▸ List.mem_cons_self)
      rw [List.cons_append, map_listing_cons, marks, marks_instrs, List.lookup_cons, hne,
        List.length_map, ih (fun hmem => hnew (List.mem_cons_of_mem l' hmem)), List.flatMap_cons,
        List.length_append, Nat.add_assoc]

end Blocks

theorem relabel_relabel {N : Type} (f : L → M) (g : M → N) (i : Instr L) :
    (i.relabel f).relabel g = i.relabel (g ∘ f) := by
  cases i <;> rfl

theorem forall₂_getElem? {α β : Type} {R : α → β → Prop} {as : List α} {bs : List β}
    (h : List.Forall₂ R as bs) {k : Nat} {a : α} (ha : as[k]? = some a) :
    ∃ b, bs[k]? = some b ∧ R a b := by
  induction h generalizing k with
  | nil => cases ha
  | cons hhead _ ih =>
      cases k with
      | zero =>
          cases ha
          exact ⟨_, rfl, hhead⟩
      | succ k => exact ih ha

namespace Lists

variable [DecidableEq L] {lines : List Line} {P : Program L} {order : List L}
  {name : L → List Char}

theorem address_next (h : Lists lines P order name) {l l' : L} (hnext : P.next l = some l') :
    address P order l' = address P order l + (P.block l).length := by
  obtain ⟨before, after, horder, hnew⟩ := split_of_mem (h.complete l) h.nodup
  have hchain := h.next
  have hlast := h.last
  have hnodup := h.nodup
  rw [horder] at hchain hlast hnodup
  cases after with
  | nil =>
      rw [hlast l (by simp)] at hnext
      cases hnext
  | cons l'' after =>
      have hnext' : P.next l = some l'' :=
        (List.isChain_cons_cons.mp hchain.right_of_append).1
      obtain rfl := Option.some.inj (hnext.symm.trans hnext')
      have hsplit : order = (before ++ [l]) ++ l' :: after := by simpa using horder
      have hnew' : l' ∉ before ++ [l] := by
        intro hmem
        have hnodup' : ((before ++ [l]) ++ l' :: after).Nodup := by simpa using hnodup
        exact List.disjoint_of_nodup_append hnodup' hmem List.mem_cons_self
      rw [address_split hsplit hnew', address_split horder hnew, List.flatMap_append,
        List.length_append, List.flatMap_singleton]

theorem word (h : Lists lines P order name) {code : List Code} (hcode : Assembled lines code)
    {l : L} {before rest : List (Instr L)} {i : Instr L} (hblock : P.block l = before ++ i :: rest) :
    ∃ word, code[address P order l + before.length]? = some word ∧
      decode word = some (i.relabel (displacement P order (address P order l + before.length))) := by
  obtain ⟨earlier, after, horder, hnew⟩ := split_of_mem (h.complete l) h.nodup
  obtain ⟨hmarks, hread⟩ := readSource_eq h.reads 0
  rw [address_split horder hnew]
  have hinstr : ((order.flatMap P.block).map (Instr.relabel name))[
      (earlier.flatMap P.block).length + before.length]? = some (i.relabel name) := by
    rw [horder, List.flatMap_append, List.flatMap_cons, hblock, List.getElem?_map,
      List.getElem?_append_right (Nat.le_add_right ..), Nat.add_sub_cancel_left]
    simp
  rw [← instrs_listing] at hinstr
  obtain ⟨instruction, hinstruction, hreads⟩ := forall₂_getElem? hread.flip hinstr
  have hindexed : (instructions lines).zipIdx[(earlier.flatMap P.block).length + before.length]? =
      some (instruction, (earlier.flatMap P.block).length + before.length) := by
    rw [List.getElem?_zipIdx, hinstruction, Nat.zero_add]
    rfl
  obtain ⟨word, hword, hbinary⟩ := forall₂_getElem? hcode.words hindexed
  refine ⟨word, hword, ?_⟩
  rw [decode_binary hreads hbinary, relabel_relabel]
  congr 2
  funext l'
  obtain ⟨earlier', after', horder', hnew'⟩ := split_of_mem (h.complete l') h.nodup
  have hlookup := lookup_marks (P := P) h.injective after' hnew' 0
  rw [← horder', ← hmarks, Nat.zero_add] at hlookup
  simp only [Function.comp_apply, Context.distance, displacement, hlookup, Option.getD_some,
    address_split horder' hnew']

end Lists

end Glowforge.Asm
