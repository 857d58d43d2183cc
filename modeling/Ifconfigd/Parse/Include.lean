import Ifconfigd.Lib.Yacc.Steps
import Ifconfigd.Parse.Automaton
import Ifconfigd.Parse.Tracking

/-!
# Including a file

The rule for `include` is reduced as soon as the file name was shifted, so nothing was
read after the name. Its action is the only one that touches the input of the lexer.
-/

namespace Ifconfigd.Parse

open CLib Yacc

/-! ## The automaton -/

theorem shiftError_eq {st st' : Nat} (h : tables.shiftError st = some st') : st' = 7 := by
  have hrow : ∀ st < rows.length, ∀ st' ∈ (row st).error, st' = 7 := by decide +kernel
  exact row_forall (P := fun _ r => ∀ st' ∈ r.error, st' = 7) hrow (fun _ _ h => by cases h) st
    st' h

/-- The state after `INCLUDE`. -/
def afterInclude : Nat := 8

/-- The state after `INCLUDE STRING`. -/
def afterName : Nat := 17

theorem shift_afterName {st : Nat} {a : Token} (h : tables.shift st a = some afterName) :
    st = afterInclude ∧ a = .string := by
  have hrow : ∀ st < rows.length, ∀ e ∈ (row st).shifts, e.2 = afterName →
      st = afterInclude ∧ e.1 = .string := by decide +kernel
  exact row_forall (P := fun st r => ∀ e ∈ r.shifts, e.2 = afterName →
    st = afterInclude ∧ e.1 = .string) hrow (fun _ _ h => by cases h) st _ (mem_of_entry h) rfl

theorem goto_ne (n st : Nat) :
    tables.goto n st ≠ afterInclude ∧ tables.goto n st ≠ afterName := by
  have hrow : ∀ st < rows.length, ∀ e ∈ (row st).gotos, e.2 ≠ afterInclude ∧ e.2 ≠ afterName := by
    decide +kernel
  have hall := row_forall (P := fun _ r => ∀ e ∈ r.gotos, e.2 ≠ afterInclude ∧ e.2 ≠ afterName) hrow
    (fun _ _ h => by cases h) st
  change (entry (row st).gotos (rules.getD n (.grammar, 0)).1).getD 0 ≠ _ ∧
    (entry (row st).gotos (rules.getD n (.grammar, 0)).1).getD 0 ≠ _
  cases hentry : entry (row st).gotos (rules.getD n (.grammar, 0)).1 with
  | none => decide
  | some st' => exact hall _ (mem_of_entry hentry)

/-- An `include` is reduced without looking at what follows. -/
theorem top_of_reduces_include {st : Nat} (h : tables.Reduces st 15) : st = afterName := by
  have hrow : ∀ st < rows.length, 15 ∈ reductions st → st = afterName := by decide +kernel
  exact hrow st (lt_length_of_reduces h) (mem_reductions h)

theorem reduce_ne_include {st n : Nat} {a : Token} (h : tables.reduce st a = some n) : n ≠ 15 := by
  rintro rfl
  cases top_of_reduces_include (.inr ⟨a, h⟩)
  cases h

/-- A string is not a character code. -/
theorem clamp_eq_string {a : Token} (h : a.clamp = .string) : a = .string := by
  cases a <;> first | rfl | cases h

/-! ## The actions and the input -/

/-- Nothing was read, and nothing was added. -/
structure InputKept (s s' : Lex) : Prop where
  levels : s'.levels = s.levels
  parsebuf : s'.parsebuf = s.parsebuf
  pushback : s'.pushback = s.pushback

theorem action_inputKept (fs : FileSystem) {n : Nat} (hn : n ≠ 15) (vs : List Val) (v : Val)
    (y : Yy) : (action fs n vs v y).Holds fun x => InputKept y.lex x.lex := by
  refine (action_lexEffect fs n vs v y).mono fun x hx => ?_
  cases hx with
  | same hlex => rw [hlex]; exact ⟨rfl, rfl, rfl⟩
  | report m hlex => rw [hlex]; exact ⟨rfl, rfl, rfl⟩
  | grammarError _ hlex => rw [hlex]; exact ⟨rfl, rfl, rfl⟩
  | «include» hn' => exact absurd hn' hn
  | varset _ nam val hlex => rw [hlex]; exact ⟨rfl, rfl, rfl⟩

/-- An `include` opens a file in front of the others, with a newline before it. -/
theorem include_ok {fs : FileSystem} {vs : List Val} {v w : Val} {y x : Yy}
    (h : action fs 15 vs v y = .ok w x) :
    ∃ name file, pushfile fs (y.lex.file :: y.lex.prev) name true = some file ∧
      x.lex = lungetc (ch '\n') { y.lex with file, prev := y.lex.file :: y.lex.prev } := by
  change withString vs 0 (fun name => actInclude fs v name y) = .ok w x at h
  simp only [withString] at h
  split at h
  · next name =>
      simp only [actInclude] at h
      split at h
      · cases h
      · next file hfile =>
          cases h
          exact ⟨_, file, hfile, rfl⟩
  · cases h

theorem include_error_lex {fs : FileSystem} {vs : List Val} {v : Val} {y x : Yy}
    (h : action fs 15 vs v y = .error x) : ∃ m, x.lex = yyerror m y.lex := by
  change withString vs 0 (fun name => actInclude fs v name y) = .error x at h
  simp only [withString] at h
  split at h
  · simp only [actInclude] at h
    split at h
    · cases h
      exact ⟨_, rfl⟩
    · cases h
  · cases h

theorem include_error {fs : FileSystem} {vs : List Val} {v : Val} {y x : Yy}
    (h : action fs 15 vs v y = .error x) : InputKept y.lex x.lex := by
  obtain ⟨m, hlex⟩ := include_error_lex h
  rw [hlex]
  exact ⟨rfl, rfl, rfl⟩

theorem erring_inputKept {fs : FileSystem} {p : State Token Val Yy} {x : Yy}
    (h : Erring tables (client fs) p x) : InputKept p.client.lex x.lex := by
  cases h with
  | @action n _ hred hact =>
      by_cases hn : n = 15
      · subst hn
        exact include_error hact
      · have hsame := action_inputKept fs hn (p.stack.map Prod.snd)
          (defaultVal n (p.stack.map Prod.snd)) p.client
        change action fs n _ _ _ = _ at hact
        rw [hact] at hsame
        exact hsame
  | token => split <;> exact ⟨rfl, rfl, rfl⟩

theorem action_ok_inputKept {fs : FileSystem} {p : State Token Val Yy} {n : Nat} (hn : n ≠ 15)
    {v : Val} {x : Yy} (h : (client fs).action n (p.stack.map Prod.snd) p.client = .ok v x) :
    InputKept p.client.lex x.lex := by
  have hsame := action_inputKept fs hn (p.stack.map Prod.snd)
    (defaultVal n (p.stack.map Prod.snd)) p.client
  change action fs n _ _ _ = _ at h
  rw [h] at hsame
  exact hsame

end Ifconfigd.Parse
