import Ifconfigd.Parse.Include
import Mathlib.Algebra.Order.BigOperators.Group.List
import Mathlib.Algebra.Order.Ring.Nat

/-!
# What an accepted configuration went through

`parse_config` looks at one counter only: that of the file `yyparse` was reading when
it stopped. Errors are counted in the file they are found in and handed to the file
behind it when a file is left, so nothing is lost: the counters of all files together
are the number of reports and of reductions by `grammar error '\n'`.

What the counter of the current file says about the parse therefore depends on where
`yyparse` stops. It stops when `yylex` reports the end of the input, and `yylex` does
so for a NUL byte, and for a byte above 127 that went through a `char`, in any file.
-/

namespace Ifconfigd.Parse

open CLib Yacc

/-! ## Counting errors -/

/-- The counters of all files. -/
def Lex.errors (s : Lex) : Nat := s.file.errors + (s.prev.map File.errors).sum

/-- The counters account for the reports and for `k` other errors. -/
def Counted (k : Nat) (s : Lex) : Prop := s.errors = s.diags.length + k

theorem popWhileEof_errors (f : File) (prev : List File) :
    (popWhileEof f prev).2.1.errors + ((popWhileEof f prev).2.2.map File.errors).sum =
      f.errors + (prev.map File.errors).sum := by
  fun_induction popWhileEof f prev with
  | case1 f => rfl
  | case2 f p ps hrest ih =>
      rw [ih, List.map_cons, List.sum_cons]
      simp only
      omega
  | case3 f p ps b rest hrest =>
      simp only [List.map_cons, List.sum_cons]
      omega

theorem lgetcInput_counted {k : Nat} {s : Lex} (h : Counted k s) (quotec : Int) :
    Counted k (lgetcInput quotec s).2 := by
  simp only [Counted, Lex.errors] at *
  cases hpush : s.pushback with
  | cons b rest => simpa only [lgetcInput, hpush] using h
  | nil =>
      simp only [lgetcInput, hpush]
      split_ifs
      · cases hrest : s.file.rest with
        | cons b rest => simpa only [getcQuoted, hrest] using h
        | nil =>
            cases hprev : s.prev with
            | nil =>
                simp only [getcQuoted, hrest, popfile, yyerror, hprev, List.length_cons]
                simp only [hprev] at h
                omega
            | cons p ps =>
                simp only [getcQuoted, hrest, popfile, yyerror, hprev, List.length_cons]
                simp only [hprev, List.map_cons, List.sum_cons] at h
                omega
      · simp only [getcJoined]
        split
        · exact h
        · simpa only [popWhileEof_errors] using h

theorem lungetc_counted {k : Nat} {s : Lex} (h : Counted k s) (c : Int) :
    Counted k (lungetc c s) :=
  lungetc_holds (P := Counted k) (fun _ _ h => h) (fun _ _ h => h) h c

theorem yyerror_counted {k : Nat} {s : Lex} (h : Counted k s) (m : Message) :
    Counted k (yyerror m s) := by
  simp only [Counted, Lex.errors, yyerror, List.length_cons] at *
  omega

theorem lexKeeps_counted (k : Nat) : LexKeeps (Counted k) where
  lgetc quotec _ h :=
    lgetc_holds (P := Counted k) (fun _ _ h => h) (fun _ h => lgetcInput_counted h quotec) h
  lungetc c _ h := lungetc_counted h c
  yyerror m _ h := yyerror_counted h m
  endMacro _ h := h
  startMacro _ _ _ h _ := h
  nextLine _ h := h
  lineno _ _ h := h
  val _ _ h := h

/-- All errors of the parse are counted. -/
def AllCounted (y : Yy) : Prop := Counted y.grammarErrors y.lex

theorem LexEffect.allCounted {fs : FileSystem} {n : Nat} {y y' : Yy} (he : LexEffect fs n y y')
    (h : AllCounted y) : AllCounted y' := by
  simp only [AllCounted] at *
  cases he with
  | same hlex hcount => rwa [hlex, hcount]
  | report m hlex hcount =>
      rw [hlex, hcount]
      exact yyerror_counted h m
  | grammarError hn hlex hcount =>
      rw [hlex, hcount]
      simp only [Counted, Lex.errors] at *
      omega
  | «include» hn name nfile hfile hlex hcount =>
      rw [hlex, hcount]
      apply lungetc_counted
      have hzero := pushfile_errors hfile
      simp only [Counted, Lex.errors, List.map_cons, List.sum_cons] at *
      omega
  | varset hn nam val hlex hcount =>
      rw [hlex, hcount]
      exact h

theorem client_keeps_allCounted (fs : FileSystem) : (client fs).Keeps AllCounted where
  lex y h := (lexKeeps_counted y.grammarErrors).yylex h
  action n vs y h := (action_lexEffect fs n vs _ y).mono fun _ he => he.allCounted h
  syntaxError _ h := yyerror_counted h _
  overflow _ h := yyerror_counted h _

/-! ## After the end of the input was reported -/

/-- The lexer has the same input before it. -/
structure SameInput (s s' : Lex) : Prop where
  rest : s'.file.rest = s.file.rest
  prev : s'.prev = s.prev
  pushback : s'.pushback = s.pushback

theorem LexEffect.sameInput {fs : FileSystem} {n : Nat} {y y' : Yy} (he : LexEffect fs n y y')
    (hn : n ≠ 15) {s : Lex} (h : SameInput s y.lex) : SameInput s y'.lex := by
  cases he with
  | same hlex _ => rwa [hlex]
  | report m hlex _ =>
      rw [hlex]
      exact ⟨h.rest, h.prev, h.pushback⟩
  | grammarError _ hlex _ =>
      rw [hlex]
      exact ⟨h.rest, h.prev, h.pushback⟩
  | «include» hn' => exact absurd hn' hn
  | varset _ nam val hlex _ =>
      rw [hlex]
      exact ⟨h.rest, h.prev, h.pushback⟩

/-- No input is read or added once the end of the input was reported. -/
theorem endStable_sameInput (fs : FileSystem) (s : Lex) :
    EndStable tables (client fs) (· ≠ afterName) fun y => SameInput s y.lex where
  noShift := shift_eof
  final := by decide
  goto n st := (goto_ne n st).2
  shiftError _ _ h := by
    rw [shiftError_eq h]
    decide
  defred st n vs y hst hn h := by
    refine (action_lexEffect fs n vs _ y).mono fun _ he => he.sameInput ?_ h
    rintro rfl
    exact hst (top_of_reduces_include (.inl hn))
  reduce st n vs y hn h :=
    (action_lexEffect fs n vs _ y).mono fun _ he => he.sameInput (reduce_ne_include hn) h
  syntaxError _ h := ⟨h.rest, h.prev, h.pushback⟩
  overflow _ h := ⟨h.rest, h.prev, h.pushback⟩

/-! ## Accepted configurations -/

/-- The top-level file. -/
def Lex.root (s : Lex) : File := s.prev.getLast?.getD s.file

/-- Nothing of the top-level file is left, and no error is counted in a file behind
the current one. -/
structure Complete (s : Lex) : Prop where
  root : s.root.rest = []
  pushback : s.pushback = []
  errors : ∀ f ∈ s.prev, f.errors = 0

/-- `yylex` reports the end of the input before that. -/
def EndsEarly (s : Lex) : Prop := (yylex s).1.clamp = .char 0 ∧ ¬Complete (yylex s).2

theorem sum_errors_eq_zero {prev : List File} :
    (prev.map File.errors).sum = 0 ↔ ∀ f ∈ prev, f.errors = 0 := by
  rw [List.sum_eq_zero_iff]
  simp

theorem SameInput.root_rest {s s' : Lex} (h : SameInput s s') : s'.root.rest = s.root.rest := by
  simp only [Lex.root, h.prev]
  cases s.prev.getLast? with
  | none => exact h.rest
  | some f => rfl

theorem popfile_getD (s : Lex) :
    ((popfile s).getD s).root.rest = s.root.rest ∧
      ((popfile s).getD s).pushback = s.pushback ∧ ((popfile s).getD s).diags = s.diags := by
  cases hprev : s.prev with
  | nil => simp [popfile, hprev]
  | cons p ps =>
      simp only [popfile, hprev, Option.getD_some, Lex.root, and_self, and_true]
      cases hlast : ps.getLast? with
      | none =>
          rw [List.getLast?_eq_none_iff] at hlast
          subst hlast
          rfl
      | some f => simp [List.getLast?_cons, hlast]

section Run

variable {fs : FileSystem} {y₀ y : Yy} {q : State Token Val Yy} {status : Status}

/-- If `yyparse` stops with no error in the current file, the end of the input was
reported to it. -/
theorem exists_calls_of_accepted (hreach : Reaches tables (client fs) (.initial y₀) q)
    (hdone : step tables (client fs) q = .done status y) (hcrash : status ≠ .crash)
    (herrors : y.lex.file.errors = 0) :
    ∃ p, Reaches tables (client fs) (.initial y₀) p ∧ Calls tables p ∧
      (yylex p.client.lex).1.clamp = .char 0 := by
  apply exists_calls_of_look hreach rfl rfl
  cases stops_of_done hdone hcrash with
  | eof h => exact h
  | overflow y' h =>
      subst h
      simp [client, yyerror] at herrors
  | lost hpop hred =>
      by_cases hstack : q.stack = []
      · obtain ⟨y', hy'⟩ := hred 1 (by rw [hstack]; rfl)
        cases hy'
      · have hsome := popToError_isSome (hreach.path (sound Val) trivial) hstack
        rw [hpop] at hsome
        cases hsome

/-- The input is then as the report left it. -/
theorem sameInput_of_calls (hreach : Reaches tables (client fs) (.initial y₀) q)
    (hdone : step tables (client fs) q = .done status y) {p : State Token Val Yy}
    (hp : Reaches tables (client fs) (.initial y₀) p) (hcalls : Calls tables p)
    (heof : (yylex p.client.lex).1.clamp = .char 0) : SameInput (yylex p.client.lex).2 y.lex := by
  have htop : top p.stack ≠ 17 := by
    intro htop
    rcases hcalls.2 with hacc | hdef
    · have hfinal := Reaches.accepting_top hp rfl hacc
      rw [htop] at hfinal
      cases hfinal
    · rw [htop] at hdef
      cases hdef
  have hended : Ended tables (· ≠ afterName) (fun y => SameInput (yylex p.client.lex).2 y.lex)
      (.run (fetch (client fs) p)) :=
    ⟨congrArg some heof, htop, ⟨rfl, rfl, rfl⟩⟩
  exact (endStable_sameInput fs _).run hended ((hp.of_done hreach hdone).fetch hcalls hdone) hdone

end Run

/-- A configuration on the standard input and a file `f` to include. -/
def withInclude (text data : List Byte) : FileSystem where
  stdin := text
  inode name := if name = CStr.lit "f" then some ⟨data, 0, 0⟩ else none
  uid := 0
  openMax := none

end Ifconfigd.Parse
