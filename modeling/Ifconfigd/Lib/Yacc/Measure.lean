import Ifconfigd.Lib.Yacc.Steps
import Mathlib.Data.Prod.Lex
import Mathlib.Order.WellFounded

/-!
# Runs that end

A run of `yyparse` ends if its lexer makes progress. Between two calls of the lexer the
parser shifts once, or treats one error, or reduces; the reductions in a row are bounded
by a rank of the states, which a table has if it does not reduce in circles. After the
end of the input the lexer is not called again.

Progress is measured in a well-founded order, for the whole state of the parser: a call
that returns a token goes down in it, and no other step goes up.
-/

namespace Yacc

variable {T V C : Type*}

/-- Ranks of the states that bound the reductions in a row: the height of the stack
together with the rank of its top goes down. The state after the `error` token does not
reduce. -/
structure Ranked (V : Type*) (t : Tables T) (E : Nat → Nat → Prop) (rank : Nat → Nat) : Prop where
  sound : Sound V t E
  noShift : ∀ st, t.shift st t.eof = none
  recovering : ∀ st st' n, t.shiftError st = some st' → ¬t.Reduces st' n
  len_le : ∀ (stack : List (Nat × V)) (n : Nat), Path E stack → t.Reduces (top stack) n →
    t.len n ≤ stack.length
  goal : ∀ (stack : List (Nat × V)) (n : Nat), Path E stack → t.Reduces (top stack) n →
    top (stack.drop (t.len n)) = 0 ∧ t.goal n → rank t.final + 2 ≤ rank (top stack) + t.len n
  goto : ∀ (stack : List (Nat × V)) (n : Nat), Path E stack → t.Reduces (top stack) n →
    ¬(top (stack.drop (t.len n)) = 0 ∧ t.goal n) →
    rank (t.goto n (top (stack.drop (t.len n)))) + 2 ≤ rank (top stack) + t.len n

/-- The stack is a path, and right after an error was treated the state on top does not
reduce. -/
structure Orderly (t : Tables T) (E : Nat → Nat → Prop) (p : State T V C) : Prop where
  path : Path E p.stack
  errflag : p.errflag ≤ 3
  recovering : p.errflag = 3 → ∀ n, ¬t.Reduces (top p.stack) n

theorem orderly_initial (t : Tables T) (E : Nat → Nat → Prop) (x : C) :
    Orderly t E (State.initial x : State T V C) :=
  ⟨trivial, Nat.zero_le 3, fun h => by cases h⟩

section Measure

variable [DecidableEq T] {t : Tables T} {c : Client T V C} {E : Nat → Nat → Prop}
  {rank : Nat → Nat} {p q : State T V C}

theorem Orderly.step (hp : Orderly t E p) (hrank : Ranked V t E rank)
    (hstep : step t c p = .run q) : Orderly t E q := by
  have hpath : Path E q.stack := by
    have hnext := step_path (c := c) hrank.sound hp.path
    rwa [hstep] at hnext
  cases step_effect hstep with
  | fetch hcall => exact ⟨hpath, hp.errflag, hp.recovering⟩
  | resume hacc hlook hne => exact ⟨hpath, hp.errflag, hp.recovering⟩
  | shift hacc hdef hlook hshift =>
      have herr := hp.errflag
      exact ⟨hpath, by dsimp only; omega, fun h => by dsimp only at h; omega⟩
  | goal hred hact hgoal =>
      exact ⟨hpath, hp.errflag, fun h => absurd hred.reduces (hp.recovering h _)⟩
  | reduce hred hact hgoal =>
      exact ⟨hpath, hp.errflag, fun h => absurd hred.reduces (hp.recovering h _)⟩
  | recover herr hflag hpop =>
      obtain ⟨st', hst'⟩ := popToError_shiftError hpop
      exact ⟨hpath, Nat.le_refl 3, fun _ n => hrank.recovering st' _ n hst'⟩
  | discard herr hflag hlook => exact ⟨hpath, hp.errflag, hp.recovering⟩

/-! ## The measure -/

omit [DecidableEq T] in
theorem top_cons (e : Nat × V) (rest : List (Nat × V)) : top (e :: rest) = e.1 := rfl

/-- Whether a token can still be read. -/
def awaiting (t : Tables T) (p : State T V C) : Nat := if p.look = some t.eof then 0 else 1

/-- A token to be shifted or dropped, and an error that can be treated. -/
def unsettled (p : State T V C) : Nat :=
  (if p.look.isSome then 2 else 0) + if p.errflag < 3 then 1 else 0

/-- A bound for the reductions in a row. -/
def reducible (rank : Nat → Nat) (p : State T V C) : Nat :=
  2 * (p.stack.length + rank (top p.stack)) + if p.accepting then 1 else 0

variable {α : Type*} [PartialOrder α]

/-- Progress of the lexer is compared after the end of the input, and before the work of
the parser. -/
def runMeasure (t : Tables T) (rank : Nat → Nat) (progress : State T V C → α)
    (p : State T V C) : ℕ ×ₗ α ×ₗ ℕ ×ₗ ℕ :=
  toLex (awaiting t p, toLex (progress p, toLex (unsettled p, reducible rank p)))

variable {progress : State T V C → α}

theorem runMeasure_lt_of_progress (ha : awaiting t q ≤ awaiting t p)
    (hprogress : progress q < progress p) :
    runMeasure t rank progress q < runMeasure t rank progress p := by
  simp only [runMeasure, Prod.Lex.toLex_lt_toLex]
  rcases Nat.lt_or_eq_of_le ha with ha | ha
  · exact .inl ha
  · exact .inr ⟨ha, .inl hprogress⟩

theorem runMeasure_lt_of_work (ha : awaiting t q ≤ awaiting t p)
    (hprogress : progress q ≤ progress p)
    (hwork : unsettled q < unsettled p ∨
      unsettled q = unsettled p ∧ reducible rank q < reducible rank p) :
    runMeasure t rank progress q < runMeasure t rank progress p := by
  rcases hprogress.lt_or_eq with hlt | heq
  · exact runMeasure_lt_of_progress ha hlt
  · simp only [runMeasure, Prod.Lex.toLex_lt_toLex]
    rcases Nat.lt_or_eq_of_le ha with ha | ha
    · exact .inl ha
    · exact .inr ⟨ha, .inr ⟨heq, hwork⟩⟩

/-- Every step goes down, if the calls of the lexer do and the others do not go up. -/
theorem runMeasure_lt (hrank : Ranked V t E rank) (hp : Orderly t E p)
    (hstep : step t c p = .run q) (hstay : ¬Calls t p → progress q ≤ progress p)
    (hlex : Calls t p → (c.lex p.client).1 ≠ t.eof → progress (fetch c p) < progress p) :
    runMeasure t rank progress q < runMeasure t rank progress p := by
  by_cases hcall : Calls t p
  · rw [step_of_calls hcall] at hstep
    cases hstep
    have hbefore : awaiting t p = 1 := by simp [awaiting, hcall.1]
    by_cases heof : (c.lex p.client).1 = t.eof
    · have hafter : awaiting t (fetch c p) = 0 := by simp [awaiting, fetch, heof]
      simp only [runMeasure, Prod.Lex.toLex_lt_toLex]
      exact .inl (by omega)
    · refine runMeasure_lt_of_progress ?_ (hlex hcall heof)
      rw [hbefore, awaiting]
      split <;> omega
  have hstay := hstay hcall
  cases step_effect hstep with
  | fetch hcall' => exact absurd hcall' hcall
  | resume hacc hlook hne =>
      refine runMeasure_lt_of_work (Nat.le_refl _) hstay (.inr ⟨rfl, ?_⟩)
      simp [reducible, hacc]
  | @shift a st hacc hdef hlook hshift =>
      have hne : a ≠ t.eof := by
        rintro rfl
        rw [hrank.noShift] at hshift
        cases hshift
      refine runMeasure_lt_of_work ?_ hstay (.inl ?_)
      · simp [awaiting, hlook, hne]
      · simp only [unsettled, hlook, Option.isSome_some, Option.isSome_none, if_true]
        split_ifs <;> simp_all
  | goal hred hact hgoal =>
      refine runMeasure_lt_of_work (Nat.le_refl _) hstay (.inr ⟨rfl, ?_⟩)
      have hle := hrank.len_le _ _ hp.path hred.reduces
      have hlt := hrank.goal _ _ hp.path hred.reduces hgoal
      simp only [reducible, top_cons, List.length_cons, List.length_drop, hred.accepting, if_true]
      split_ifs <;> omega
  | reduce hred hact hgoal =>
      refine runMeasure_lt_of_work (Nat.le_refl _) hstay (.inr ⟨rfl, ?_⟩)
      have hle := hrank.len_le _ _ hp.path hred.reduces
      have hlt := hrank.goto _ _ hp.path hred.reduces hgoal
      simp only [reducible, top_cons, List.length_cons, List.length_drop, hred.accepting]
      omega
  | recover herr hflag hpop =>
      refine runMeasure_lt_of_work (Nat.le_refl _) hstay (.inl ?_)
      simp [unsettled, hflag]
  | discard herr hflag hlook =>
      have hlook' : p.look.isSome := by
        cases herr with
        | action hred hact =>
            have hthree : p.errflag = 3 := Nat.le_antisymm hp.errflag hflag
            exact absurd hred.reduces (hp.recovering hthree _)
        | token hacc hdef hsome hshift hreduce => simp [hsome]
      refine runMeasure_lt_of_work ?_ hstay (.inl ?_)
      · simp [awaiting, hlook]
      · simp [unsettled, hlook']

/-! ## Runs -/

theorem exists_run_of_steps_eq_none {k : Nat} (h : steps t c k p = none) :
    ∃ fuel r, run t c fuel p = some r := by
  induction k generalizing p with
  | zero => cases h
  | succ k ih =>
      rw [steps] at h
      split at h
      · next q hstep =>
          obtain ⟨fuel, r, hrun⟩ := ih h
          exact ⟨fuel + 1, r, by rw [run, hstep]; exact hrun⟩
      · next status x hstep => exact ⟨1, (status, x), by rw [run, hstep]⟩

theorem steps_eq_none_of_run {fuel k : Nat} {r : Status × C} (h : run t c fuel p = some r)
    (hk : fuel ≤ k) : steps t c k p = none := by
  induction fuel generalizing p k with
  | zero => cases h
  | succ fuel ih =>
      obtain ⟨k, rfl⟩ : ∃ k', k = k' + 1 := ⟨k - 1, by omega⟩
      rw [run] at h
      rw [steps]
      split at h
      · next status x hstep => rw [hstep]
      · next q hstep =>
          rw [hstep]
          exact ih h (by omega)

/-- A run ends if from some point on every call of the lexer that returns a token makes
progress. -/
theorem exists_run_iff_eventually [WellFoundedLT α] (hrank : Ranked V t E rank)
    {I good : State T V C → Prop} (hI : ∀ p q, I p → step t c p = .run q → I q)
    (hstay : ∀ p q, I p → step t c p = .run q → ¬Calls t p → progress q ≤ progress p)
    (hlex : ∀ p, I p → good p → Calls t p → (c.lex p.client).1 ≠ t.eof →
      progress (fetch c p) < progress p)
    (hp : I p) (horder : Orderly t E p) :
    (∃ fuel r, run t c fuel p = some r) ↔
      ∃ k, ∀ j, k ≤ j → ∀ q, steps t c j p = some q → good q := by
  constructor
  · rintro ⟨fuel, r, hrun⟩
    refine ⟨fuel, fun j hj q hq => ?_⟩
    rw [steps_eq_none_of_run hrun hj] at hq
    cases hq
  · rintro ⟨k, hgood⟩
    -- a step never repeats a value of the measure, so the states after `k` steps run out
    suffices hend : ∀ q, I q → Orderly t E q → ∀ j, k ≤ j → steps t c j p = some q →
        ∃ i, steps t c i p = none by
      cases hk : steps t c k p with
      | none => exact exists_run_of_steps_eq_none hk
      | some q =>
          have hreach := reaches_of_steps hk
          have hIq := hreach.invariant hI hp
          have hqorder := hreach.invariant (fun _ _ h hstep => h.step hrank hstep) horder
          obtain ⟨i, hi⟩ := hend q hIq hqorder k (Nat.le_refl k) hk
          exact exists_run_of_steps_eq_none hi
    intro q
    induction q using (InvImage.wf (runMeasure t rank progress) wellFounded_lt).induction with
    | _ q ih =>
      intro hIq hq j hj hsteps
      cases hstep : step t c q with
      | done status x => exact ⟨j + 1, by rw [steps_succ, hsteps, Option.bind_some, hstep]⟩
      | run r =>
          have hlt := runMeasure_lt hrank hq hstep (hstay q r hIq hstep)
            (hlex q hIq (hgood j hj q hsteps))
          refine ih r hlt (hI q r hIq hstep) (hq.step hrank hstep) (j + 1) (by omega) ?_
          rw [steps_succ, hsteps, Option.bind_some, hstep]

theorem steps_add (j k : Nat) (p : State T V C) :
    steps t c (j + k) p = (steps t c j p).bind (steps t c k) := by
  induction j generalizing p with
  | zero => rw [Nat.zero_add, steps, Option.bind_some]
  | succ j ih =>
      rw [Nat.add_right_comm, steps, steps]
      split
      · exact ih _
      · rfl

/-- A run that comes back to a state does not end. -/
theorem run_eq_none_of_cycle {k m : Nat} (hk : steps t c k p = some q)
    (hm : steps t c (m + 1) q = some q) (fuel : Nat) : run t c fuel p = none := by
  have hagain : ∀ i, ∃ j, i ≤ j ∧ steps t c j p = some q := by
    intro i
    induction i with
    | zero => exact ⟨k, Nat.zero_le k, hk⟩
    | succ i ih =>
        obtain ⟨j, hij, hj⟩ := ih
        refine ⟨j + (m + 1), by omega, ?_⟩
        rw [steps_add, hj]
        exact hm
  by_contra hrun
  obtain ⟨r, hrun⟩ := Option.ne_none_iff_exists'.1 hrun
  obtain ⟨j, hj, hsteps⟩ := hagain fuel
  rw [steps_eq_none_of_run hrun hj] at hsteps
  cases hsteps

end Measure

end Yacc
