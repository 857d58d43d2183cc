import Ifconfigd.Parse.Parser

/-!
# The automaton of the grammar

Facts about the tables that hold in every run: the stack of `yyparse` is a path of
the automaton, so that a reduction always finds its right side on the stack and a
state after it, and the state from which errors are recovered is always there.

The facts about single rows are checked by going through the table.
-/

namespace Ifconfigd.Parse

open Yacc

/-! ## Entries and rows -/

theorem mem_of_entry {A : Type} [DecidableEq A] {entries : List (A × Nat)} {a : A} {n : Nat}
    (h : entry entries a = some n) : (a, n) ∈ entries := by
  rw [entry, Option.map_eq_some_iff] at h
  obtain ⟨e, he, rfl⟩ := h
  have hkey := List.find?_some he
  rw [decide_eq_true_eq] at hkey
  rw [← hkey]
  exact List.mem_of_find?_eq_some he

/-- What holds of every row and of the row of a state that does not exist. -/
theorem row_forall {P : Nat → Row → Prop} (h : ∀ st < rows.length, P st (row st))
    (hnone : ∀ st, P st ⟨none, [], [], none, []⟩) (st : Nat) : P st (row st) := by
  by_cases hst : st < rows.length
  · exact h st hst
  · have hrow : row st = ⟨none, [], [], none, []⟩ := List.getD_eq_default _ _ (by omega)
    rw [hrow]
    exact hnone st

/-- The end of the input is never shifted. -/
theorem shift_eof (st : Nat) : tables.shift st tables.eof = none := by
  refine row_forall (P := fun _ r => entry r.shifts (.char 0) = none) ?_ (fun _ => rfl) st
  decide +kernel

/-! ## Paths -/

/-- The states after a symbol was read in a state. -/
def successors (st : Nat) : List Nat :=
  (row st).shifts.map Prod.snd ++ (row st).gotos.map Prod.snd ++ (row st).error.toList

def Edge (st st' : Nat) : Prop := st' ∈ successors st

theorem Edge.lt_length {st st' : Nat} (h : Edge st st') : st < rows.length := by
  by_contra hst
  have hrow : row st = ⟨none, [], [], none, []⟩ := List.getD_eq_default _ _ (by omega)
  simp [Edge, successors, hrow] at h

/-- The states from which a state is entered. -/
def predecessors (st : Nat) : List Nat :=
  (List.range rows.length).filter fun st' => (successors st').contains st

theorem Edge.mem_predecessors {st st' : Nat} (h : Edge st st') : st ∈ predecessors st' := by
  rw [predecessors, List.mem_filter]
  refine ⟨List.mem_range.2 h.lt_length, ?_⟩
  rw [List.contains_eq_mem, decide_eq_true_eq]
  exact h

/-- The states `k` entries below one of the given states on the stack. -/
def below : Nat → List Nat → List Nat
  | 0, sts => sts
  | k + 1, sts => below k (sts.flatMap predecessors).eraseDups

/-- Walking down a path of at least `k` entries. -/
theorem mem_below {V : Type} {stack : List (Nat × V)} (h : Path Edge stack) {k : Nat}
    (hk : k ≤ stack.length) {sts : List Nat} (hmem : top stack ∈ sts) :
    top (stack.drop k) ∈ below k sts := by
  induction k generalizing stack sts with
  | zero => exact hmem
  | succ k ih =>
      cases stack with
      | nil => cases hk
      | cons e rest =>
          apply ih h.2 (Nat.le_of_succ_le_succ hk)
          rw [List.mem_eraseDups, List.mem_flatMap]
          exact ⟨e.1, hmem, h.1.mem_predecessors⟩

/-- The rules a state reduces by. -/
def reductions (st : Nat) : List Nat := (row st).defred.toList ++ (row st).reduces.map Prod.snd

theorem mem_reductions {st n : Nat} (h : tables.Reduces st n) : n ∈ reductions st := by
  rw [reductions, List.mem_append]
  rcases h with hdef | ⟨a, ha⟩
  · left
    rw [Option.mem_toList]
    exact hdef
  · right
    exact List.mem_map_of_mem (mem_of_entry ha)

/-- A rule fits a state: the right side is on the stack, above state 0, and the state
below it knows where to go. -/
def fits (st n : Nat) : Bool :=
  (List.range (tables.len n)).all (fun i => !(below i [st]).contains 0) &&
    (below (tables.len n) [st]).all fun st' =>
      (st' = 0 && tables.goal n) ||
        (entry (row st').gotos (rules.getD n (.grammar, 0)).1).isSome

theorem fits_reductions :
    (List.range rows.length).all (fun st => (reductions st).eraseDups.all (fits st)) = true := by
  -- in four parts, which the kernel evaluates one after the other
  have hsplit : List.range rows.length = List.range 32 ++ List.range' 32 32 ++
      List.range' 64 32 ++ List.range' 96 (rows.length - 96) := by
    decide +kernel
  rw [hsplit, List.all_append, List.all_append, List.all_append]
  simp only [Bool.and_eq_true]
  refine ⟨⟨⟨?_, ?_⟩, ?_⟩, ?_⟩
  · decide +kernel
  · decide +kernel
  · decide +kernel
  · decide +kernel

theorem lt_length_of_reduces {st n : Nat} (h : tables.Reduces st n) : st < rows.length := by
  by_contra hst
  have hmem := mem_reductions h
  have hrow : row st = ⟨none, [], [], none, []⟩ := List.getD_eq_default _ _ (by omega)
  simp [reductions, hrow] at hmem

theorem fits_of_reduces {st n : Nat} (h : tables.Reduces st n) : fits st n = true := by
  have hst := List.mem_range.2 (lt_length_of_reduces h)
  have hall := List.all_eq_true.1 fits_reductions st hst
  exact List.all_eq_true.1 hall n (List.mem_eraseDups.2 (mem_reductions h))

/-- A path is at least as long as the right side of a rule its top state reduces by. -/
theorem len_le_of_reduces {V : Type} {stack : List (Nat × V)} (h : Path Edge stack) {n : Nat}
    (hn : tables.Reduces (top stack) n) : tables.len n ≤ stack.length := by
  by_contra hlt
  have hfits := fits_of_reduces hn
  rw [fits, Bool.and_eq_true, List.all_eq_true] at hfits
  have hzero := hfits.1 stack.length (List.mem_range.2 (by omega))
  have hbelow := mem_below h (Nat.le_refl _) (List.mem_singleton.2 rfl)
  rw [List.drop_length] at hbelow
  simp only [Bool.not_eq_true', List.contains_eq_mem, decide_eq_false_iff_not] at hzero
  exact hzero hbelow

theorem sound (V : Type) : Sound V tables Edge where
  final := by
    change 1 ∈ successors 0
    decide
  shift st a st' h := by
    refine List.mem_append_left _ (List.mem_append_left _ ?_)
    exact List.mem_map_of_mem (mem_of_entry h)
  shiftError st st' h := List.mem_append_right _ (Option.mem_toList.2 h)
  goto stack n hpath hn hgoal := by
    have hfits := fits_of_reduces hn
    rw [fits, Bool.and_eq_true, List.all_eq_true, List.all_eq_true] at hfits
    have hbelow := mem_below hpath (len_le_of_reduces hpath hn) (List.mem_singleton.2 rfl)
    have hgoto := hfits.2 _ hbelow
    simp only [Bool.or_eq_true, Bool.and_eq_true, decide_eq_true_eq] at hgoto
    obtain ⟨st', hst'⟩ := Option.isSome_iff_exists.1 (hgoto.resolve_left hgoal)
    refine List.mem_append_left _ (List.mem_append_right _ ?_)
    have hgoto' : tables.goto n (top (stack.drop (tables.len n))) = st' := by
      change (entry _ _).getD 0 = st'
      rw [hst', Option.getD_some]
    rw [hgoto']
    exact List.mem_map_of_mem (mem_of_entry hst')

/-! ## Recovering from errors -/

theorem successors_zero : successors 0 = [1] := by decide

/-- The bottom of a path is the state that shifts the `error` token. -/
theorem popToError_isSome {V : Type} {stack : List (Nat × V)} (h : Path Edge stack)
    (hne : stack ≠ []) : (popToError tables stack).isSome := by
  induction stack with
  | nil => exact absurd rfl hne
  | cons e rest ih =>
      rw [popToError]
      cases herr : tables.shiftError e.1 with
      | some st => rfl
      | none =>
          apply ih h.2
          rintro rfl
          have hedge := h.1
          simp only [top, Edge, successors_zero, List.mem_singleton] at hedge
          rw [hedge] at herr
          exact absurd herr (by decide)

/-! ## States below others

A set of states is a number, with a bit for each state in it. -/

/-- Add the states entered from a set, but for those to be avoided. -/
def entered (avoid : List Nat) (sts : Nat) : Nat :=
  (List.range rows.length).foldl
    (fun acc st =>
      if sts.testBit st then
        (successors st).foldl
          (fun acc st' => if avoid.contains st' then acc else acc ||| 1 <<< st') acc
      else acc)
    sts

def spread (avoid : List Nat) : Nat → Nat → Nat
  | 0, sts => sts
  | k + 1, sts => spread avoid k (entered avoid sts)

/-- The states that can be above a state on the stack. -/
def above (st : Nat) : Nat := spread [] 15 (1 <<< st)

/-- The states that can be on top of a stack without one of the given ones. -/
def without (sts : List Nat) : Nat := spread sts 19 1

/-- Nothing is entered from `sts` but `sts` and `avoid`. -/
def closedBut (avoid : List Nat) (sts : Nat) : Bool :=
  (List.range rows.length).all fun st =>
    !sts.testBit st || (successors st).all fun st' => avoid.contains st' || sts.testBit st'

theorem testBit_of_closedBut {avoid : List Nat} {sts : Nat} (h : closedBut avoid sts = true)
    {st st' : Nat} (hst : sts.testBit st = true) (hedge : Edge st st') :
    st' ∈ avoid ∨ sts.testBit st' = true := by
  have hrow := List.all_eq_true.1 h st (List.mem_range.2 hedge.lt_length)
  rw [hst, Bool.not_true, Bool.false_or, List.all_eq_true] at hrow
  simpa using hrow st' hedge

/-- What is above a state stays in a set that cannot be left. -/
theorem testBit_top_of_mem {V : Type} {stack : List (Nat × V)} (h : Path Edge stack) {sts : Nat}
    (hclosed : closedBut [] sts = true) {e : Nat × V} (he : e ∈ stack)
    (hmem : sts.testBit e.1 = true) : sts.testBit (top stack) = true := by
  induction stack with
  | nil => cases he
  | cons e' rest ih =>
      rcases List.mem_cons.1 he with rfl | he
      · exact hmem
      · exact (testBit_of_closedBut hclosed (ih h.2 he) h.1).resolve_left List.not_mem_nil

/-- A stack with a state on top that is not entered from state 0 otherwise contains one
of the states `avoid`. -/
theorem exists_mem_of_top {V : Type} {stack : List (Nat × V)} (h : Path Edge stack)
    {avoid : List Nat} {sts : Nat} (hclosed : closedBut avoid sts = true)
    (hzero : sts.testBit 0 = true) (htop : sts.testBit (top stack) = false) :
    ∃ e ∈ stack, e.1 ∈ avoid := by
  induction stack with
  | nil => exact absurd (hzero.symm.trans htop) Bool.noConfusion
  | cons e rest ih =>
      cases hrest : sts.testBit (top rest) with
      | true =>
          rcases testBit_of_closedBut hclosed hrest h.1 with havoid | hmem
          · exact ⟨e, List.mem_cons_self, havoid⟩
          · exact absurd (hmem.symm.trans htop) Bool.noConfusion
      | false =>
          obtain ⟨e', he', havoid⟩ := ih h.2 hrest
          exact ⟨e', List.mem_cons_of_mem e he', havoid⟩

end Ifconfigd.Parse
