import Ifconfigd.Lib.Yacc.Lockstep
import Ifconfigd.Parse.Enclosing

/-!
# Which values are read

`yylval` keeps its value until the lexer sets it again, so a token without a value of
its own is pushed with the value of some earlier token. No action reads such a value:
the actions read what was pushed with strings, numbers and the symbols made from them.
-/

namespace Ifconfigd.Parse

open CLib Yacc

/-! ## Values of tokens -/

/-- The token carries a value of its kind, if it is to carry one. -/
def Carries (r : Token × Lex) : Prop := r.1 = .string ∨ r.1 = .number → r.2.val ≠ .none

theorem lookup_ne_number (w : CStr) : lookup w ≠ .number := by
  rw [lookup]
  cases hfind : keywords.find? fun k => k.1 = w with
  | none => exact nofun
  | some k =>
      have hall : ∀ k ∈ keywords, k.2 ≠ .number := by decide
      exact hall k (List.mem_of_find?_eq_some hfind)

theorem lexError_carries (m : Message) (s : Lex) : Carries (lexError m s) := by
  rintro (h | h) <;> cases h

theorem wordToken_carries (text : List Byte) (s : Lex) : Carries (wordToken text s) := by
  rw [wordToken]
  split
  · exact fun _ h => by cases h
  · next hne =>
      rintro (h | h)
      · exact absurd h hne
      · exact absurd h (lookup_ne_number _)

theorem lexWord_carries (c : Int) (s : Lex) : Carries (lexWord c s) := by
  rw [lexWord]
  split
  · split
    · rintro (h | h) <;> cases h
    · exact lexError_carries _ _
    · exact wordToken_carries _ _
  · split
    · rintro (h | h) <;> cases h
    · split <;> rintro (h | h) <;> cases h

theorem lexNodigits_carries (text : List Byte) (s : Lex) : Carries (lexNodigits text s) := by
  rw [lexNodigits]
  split
  · rintro (h | h) <;> cases h
  · exact lexWord_carries _ _

theorem lexToken_carries (c : Int) (s : Lex) : Carries (lexToken c s) := by
  rw [lexToken]
  split
  · rw [lexQuoted]
    split
    · rintro (h | h) <;> cases h
    · exact lexError_carries _ _
    · exact fun _ h => by cases h
  · split
    · rw [lexNumber]
      split
      · rintro (h | h) <;> cases h
      · exact lexError_carries _ _
      · split
        · exact lexNodigits_carries _ _
        · split
          · split
            · exact fun _ h => by cases h
            · exact lexError_carries _ _
          · exact lexNodigits_carries _ _
    · exact lexWord_carries _ _

theorem yylex_carries (s : Lex) : Carries (yylex s) := by
  fun_induction yylex s with
  | case1 => rintro (h | h) <;> cases h
  | case2 => exact lexError_carries _ _
  | case3 => exact lexError_carries _ _
  | case4 _ _ _ _ _ _ _ ih => exact ih
  | case5 => exact lexToken_carries _ _

/-! ## Values on the stack -/

/-- The states after a token or a symbol whose value some action reads. -/
def valued : List Nat :=
  [10, 17, 18, 19, 20, 21, 22, 37, 38, 84, 85, 86, 89, 90, 91, 92, 93, 94, 95, 98, 99, 100, 101,
    102, 103, 104, 105, 106, 107, 131, 132, 133, 134, 137]

/-- How many values, from the top of the stack, the action of a rule reads. -/
def reads (n : Nat) : Nat :=
  if n ∈ [16, 18] then 2
  else if n ∈ [15, 17, 19, 20] ++ headerRules ++ ethernetRules ++ wirelessRules ++ staticRules then
    1
  else 0

/-- Which symbols lead to such a state, and that the actions read nothing else. -/
def valuesFit : Bool :=
  (List.range rows.length).all fun st =>
    ((row st).shifts.all fun e => !valued.contains e.2 || e.1 = .string || e.1 = .number) &&
      ((row st).error.all fun st' => !valued.contains st') &&
      ((row st).gotos.all fun e => !valued.contains e.2 || e.1 = .yesno || e.1 = .stringSeq) &&
      ((reductions st).eraseDups.all fun n => (List.range (reads n)).all fun i =>
        (below i [st]).all fun st' => valued.contains st')

theorem valuesFit_eq : valuesFit = true := by decide +kernel

/-- The check of `valuesFit` for one state; a state beyond the table has an empty row. -/
theorem valuesFit_of (st : Nat) :
    (∀ e ∈ (row st).shifts, e.2 ∈ valued → e.1 = .string ∨ e.1 = .number) ∧
      (∀ st' ∈ (row st).error, st' ∉ valued) ∧
      (∀ e ∈ (row st).gotos, e.2 ∈ valued → e.1 = .yesno ∨ e.1 = .stringSeq) ∧
      ∀ n ∈ reductions st, ∀ i < reads n, ∀ st' ∈ below i [st], st' ∈ valued := by
  by_cases hst : st < rows.length
  · have hall := List.all_eq_true.1 valuesFit_eq st (List.mem_range.2 hst)
    simp only [Bool.and_eq_true, List.all_eq_true, Bool.or_eq_true, Bool.not_eq_true',
      decide_eq_true_eq, List.contains_eq_mem, decide_eq_false_iff_not, List.mem_range,
      Option.all_eq_true, List.mem_eraseDups] at hall
    obtain ⟨⟨⟨hshift, herror⟩, hgoto⟩, hreads⟩ := hall
    refine ⟨fun e he hv => ?_, herror, fun e he hv => ?_, hreads⟩
    · rcases hshift e he with (h | h) | h
      · exact absurd hv h
      · exact .inl h
      · exact .inr h
    · rcases hgoto e he with (h | h) | h
      · exact absurd hv h
      · exact .inl h
      · exact .inr h
  · have hrow : row st = ⟨none, [], [], none, []⟩ := List.getD_eq_default _ _ (by omega)
    simp [reductions, hrow]

theorem shift_valued {st st' : Nat} {a : Token} (h : tables.shift st a = some st')
    (hv : st' ∈ valued) : a = .string ∨ a = .number :=
  (valuesFit_of st).1 (a, st') (mem_of_entry h) hv

theorem shiftError_not_valued {st st' : Nat} (h : tables.shiftError st = some st') :
    st' ∉ valued :=
  (valuesFit_of st).2.1 st' h

theorem goto_valued {n st : Nat} (hv : tables.goto n st ∈ valued) : n ∈ [13, 14, 16, 17] := by
  have hlhs : (rules.getD n (.grammar, 0)).1 = .yesno ∨
      (rules.getD n (.grammar, 0)).1 = .stringSeq := by
    change (entry (row st).gotos (rules.getD n (.grammar, 0)).1).getD 0 ∈ valued at hv
    cases hentry : entry (row st).gotos (rules.getD n (.grammar, 0)).1 with
    | none =>
        rw [hentry] at hv
        exact absurd hv (by decide)
    | some st' =>
        rw [hentry] at hv
        exact (valuesFit_of st).2.2.1 (_, st') (mem_of_entry hentry) hv
  by_cases hn : n < rules.length
  · have hall : ∀ n < rules.length, (rules.getD n (.grammar, 0)).1 = .yesno ∨
        (rules.getD n (.grammar, 0)).1 = .stringSeq → n ∈ [13, 14, 16, 17] := by decide
    exact hall n hn hlhs
  · rw [List.getD_eq_default _ _ (by omega)] at hlhs
    rcases hlhs with h | h <;> cases h

theorem below_valued {st n i st' : Nat} (h : tables.Reduces st n) (hi : i < reads n)
    (hst' : st' ∈ below i [st]) : st' ∈ valued :=
  (valuesFit_of st).2.2.2 n (mem_reductions h) i hi st' hst'

/-- Values agree where an action reads them. -/
def SameValue (st : Nat) (v w : Val) : Prop := st ∈ valued → w = v

/-- The values an action reads are on the stack. -/
theorem lt_length_of_reads {stack : List (Nat × Val)} (hpath : Path Edge stack) {n i : Nat}
    (hn : tables.Reduces (top stack) n) (hi : i < reads n) :
    i < stack.length ∧ top (stack.drop i) ∈ valued := by
  induction i with
  | zero =>
      have hv := below_valued hn hi (List.mem_singleton.2 rfl)
      refine ⟨List.length_pos_iff.2 ?_, hv⟩
      rintro rfl
      exact absurd hv (by decide)
  | succ i ih =>
      have hle : i + 1 ≤ stack.length := (ih (by omega)).1
      have hv := below_valued hn hi (mem_below hpath hle (List.mem_singleton.2 rfl))
      refine ⟨?_, hv⟩
      by_contra hlt
      rw [List.drop_eq_nil_of_le (by omega)] at hv
      exact absurd hv (by decide)

/-- They agree. -/
theorem read_values {stack stack' : List (Nat × Val)} (hpath : Path Edge stack)
    (h : List.Forall₂ (Entries SameValue) stack stack') {n i : Nat}
    (hn : tables.Reduces (top stack) n) (hi : i < reads n) :
    (stack'.map Prod.snd)[i]? = (stack.map Prod.snd)[i]? := by
  obtain ⟨hlt, hv⟩ := lt_length_of_reads hpath hn hi
  have hdrop := List.forall₂_drop i h
  rw [List.drop_eq_getElem_cons hlt] at hdrop hv
  obtain ⟨e', rest', he, -, hstack'⟩ := List.forall₂_cons_left_iff.1 hdrop
  have hget : stack'[i]? = some e' := by
    rw [← Nat.add_zero i, ← List.getElem?_drop, hstack']
    rfl
  rw [List.getElem?_map, List.getElem?_map, hget, List.getElem?_eq_getElem hlt]
  exact congrArg some (he.value hv)

end Ifconfigd.Parse
