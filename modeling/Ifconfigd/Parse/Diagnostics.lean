import Ifconfigd.Lib.Yacc.Trace
import Ifconfigd.Parse.TokenLine

/-!
# The lines that diagnostics name

A message is about the token that is being read or was read last. Along a run the newlines
of the configuration file are accounted for, and `yylval.lineno` stays that of the last
token, so that each message for a token of the configuration file names its line.
-/

namespace Ifconfigd.Parse

open CLib Yacc

/-! ## The configuration file -/

/-- The configuration file is accounted for. -/
structure Placed (text : List Byte) (s : Lex) : Prop where
  balance : Balance (1 + text.count 10) 0 s
  rest : s.root.rest <:+ text

section Placed

variable {text : List Byte} {s s' : Lex}

theorem Placed.same (h : Placed text s) (hbuf : s'.parsebuf = s.parsebuf)
    (hpush : s'.pushback = s.pushback) (hprev : s'.prev = s.prev)
    (hlineno : s'.file.lineno = s.file.lineno) (hrest : s'.file.rest = s.file.rest) :
    Placed text s' := by
  refine ⟨h.balance.same hbuf hpush hprev hlineno hrest, ?_⟩
  rw [root_eq, hprev]
  exact (rootFile_suffix (hrest ▸ List.suffix_rfl) _).trans h.rest

/-- A file is included by a name that was read to no newline. -/
theorem Placed.push (h : Placed text s) (hpush : s.prev = [] → 10 ∉ s.pushback) (nfile : File) :
    Placed text (lungetc (ch '\n') { s with file := nfile, prev := s.file :: s.prev }) := by
  have hroot : rootFile nfile (s.file :: s.prev) = s.root := rootFile_cons nfile s.file s.prev
  obtain ⟨hfile, hprev⟩ := lungetc_file (ch '\n') { s with file := nfile, prev := s.file :: s.prev }
  have hne : (lungetc (ch '\n') { s with file := nfile, prev := s.file :: s.prev }).prev ≠ [] := by
    rw [hprev]
    exact List.cons_ne_nil _ _
  refine ⟨⟨(loopKeeps_macroText _).lungetc _ _ h.balance.plain, ?_⟩, ?_⟩
  · have hsum := h.balance.sum
    rw [rootAhead_of_ne hne, if_neg hne, root_eq, hfile, hprev, hroot]
    by_cases hnil : s.prev = []
    · rw [rootAhead_of_nil hnil, List.count_append, List.count_eq_zero_of_not_mem (hpush hnil),
        if_pos hnil] at hsum
      rw [root_of_nil hnil] at hsum ⊢
      omega
    · rwa [rootAhead_of_ne hnil, if_neg hnil] at hsum
  · rw [root_eq, hfile, hprev, hroot]
    exact h.rest

end Placed

/-! ## The steps of the parser -/

section Steps

variable {fs : FileSystem} {text : List Byte} {p q : State Token Val Yy}

/-- The next step includes a file. -/
def includes (fs : FileSystem) (p : State Token Val Yy) : Bool :=
  match nextRule tables p, (client fs).action 15 (p.stack.map Prod.snd) p.client with
  | some 15, .ok _ _ => true
  | _, _ => false

/-- The conditions on a step. -/
structure StepOk (fs : FileSystem) (text : List Byte) (p : State Token Val Yy) : Prop where
  reads : Calls tables p → ReadsOk text p.client.lex
  /-- No newline is taken along when the configuration file is left for an included one. -/
  includes : includes fs p → p.client.lex.prev = [] → 10 ∉ p.client.lex.pushback

instance (fs : FileSystem) (text : List Byte) (p : State Token Val Yy) :
    Decidable (StepOk fs text p) :=
  decidable_of_iff
    ((Calls tables p → ReadsOk text p.client.lex) ∧
      (Parse.includes fs p → p.client.lex.prev = [] → 10 ∉ p.client.lex.pushback))
    ⟨fun ⟨hreads, hincludes⟩ => ⟨hreads, hincludes⟩, fun h => ⟨h.reads, h.includes⟩⟩

theorem includes_of_ok {v : Val} {x : Yy} (hred : Reducing tables p 15)
    (hact : (client fs).action 15 (p.stack.map Prod.snd) p.client = .ok v x) :
    includes fs p = true := by
  simp only [includes, nextRule_eq_some_iff.2 hred, hact]

theorem LexEffect.reporting {n : Nat} {y y' : Yy} (h : LexEffect fs n y y') :
    Reporting y.lex y'.lex := by
  cases h with
  | same hlex => rw [hlex]; exact .refl _
  | report m hlex => rw [hlex]; exact .report m _
  | grammarError _ hlex => rw [hlex]; exact .same rfl rfl
  | «include» _ name nfile _ hlex =>
      rw [hlex]
      have hopen : Reporting y.lex
          { y.lex with file := nfile, prev := y.lex.file :: y.lex.prev } := .same rfl rfl
      exact hopen.trans (lungetc_reporting _ _)
  | varset _ nam val hlex => rw [hlex]; exact .same rfl rfl

theorem LexEffect.placed {n : Nat} {y y' : Yy} (h : LexEffect fs n y y') (hn : n ≠ 15)
    (hplaced : Placed text y.lex) : Placed text y'.lex := by
  cases h with
  | same hlex => rwa [hlex]
  | report m hlex => rw [hlex]; exact hplaced.same rfl rfl rfl rfl rfl
  | grammarError _ hlex => rw [hlex]; exact hplaced.same rfl rfl rfl rfl rfl
  | «include» hn' => exact absurd hn' hn
  | varset _ nam val hlex => rw [hlex]; exact hplaced.same rfl rfl rfl rfl rfl

theorem erring_reporting {x : Yy} (h : Erring tables (client fs) p x) :
    Reporting p.client.lex x.lex := by
  cases h with
  | @action n x hred hact =>
      have heffect := action_lexEffect fs n (p.stack.map Prod.snd)
        (defaultVal n (p.stack.map Prod.snd)) p.client
      change action fs n _ _ _ = _ at hact
      rw [hact] at heffect
      exact heffect.reporting
  | token =>
      split
      · exact .report _ _
      · exact .refl _

theorem erring_placed {x : Yy} (h : Erring tables (client fs) p x)
    (hplaced : Placed text p.client.lex) : Placed text x.lex := by
  cases h with
  | @action n x hred hact =>
      change action fs n _ _ _ = _ at hact
      by_cases hn : n = 15
      · subst hn
        obtain ⟨m, hlex⟩ := include_error_lex hact
        rw [hlex]
        exact hplaced.same rfl rfl rfl rfl rfl
      · have heffect := action_lexEffect fs n (p.stack.map Prod.snd)
          (defaultVal n (p.stack.map Prod.snd)) p.client
        rw [hact] at heffect
        exact heffect.placed hn hplaced
  | token =>
      split
      · exact hplaced.same rfl rfl rfl rfl rfl
      · exact hplaced

/-- Without a call of the lexer the line of the last token stays, every message has it, and
the configuration file stays accounted for. -/
theorem pushing_reporting {x : Yy} (h : Pushing tables (client fs) p x) :
    Reporting p.client.lex x.lex := by
  cases h with
  | shift => exact .refl _
  | @reduce n v x hred hact =>
      have heffect := action_lexEffect fs n (p.stack.map Prod.snd)
        (defaultVal n (p.stack.map Prod.snd)) p.client
      change action fs n _ _ _ = _ at hact
      rw [hact] at heffect
      exact heffect.reporting
  | error herr => exact erring_reporting herr

theorem pushing_placed {x : Yy} (h : Pushing tables (client fs) p x) (hok : StepOk fs text p)
    (hplaced : Placed text p.client.lex) : Placed text x.lex := by
  cases h with
  | shift => exact hplaced
  | @reduce n v x hred hact =>
      by_cases hn : n = 15
      · subst hn
        have hpush := hok.includes (includes_of_ok hred hact)
        obtain ⟨name, nfile, -, hlex⟩ := include_ok hact
        rw [hlex]
        exact hplaced.push hpush nfile
      · have heffect := action_lexEffect fs n (p.stack.map Prod.snd)
          (defaultVal n (p.stack.map Prod.snd)) p.client
        change action fs n _ _ _ = _ at hact
        rw [hact] at heffect
        exact heffect.placed hn hplaced
  | error herr => exact erring_placed herr hplaced

end Steps

/-! ## Runs -/

section Runs

variable {fs : FileSystem} {text : List Byte} {p₀ p q : State Token Val Yy} {l : Option Lex}

/-- The state of the lexer before the token that the next step is about: the one the step
reads, or the last one that was read. -/
def tokenOf (l : Option Lex) (p : State Token Val Yy) : Option Lex :=
  if Calls tables p then some p.client.lex else l

/-- A run whose steps all meet the conditions, with the state of the lexer before the last
token. -/
inductive Lined (fs : FileSystem) (text : List Byte) (p₀ : State Token Val Yy) :
    Option Lex → State Token Val Yy → Prop
  | start : Lined fs text p₀ none p₀
  | step {l : Option Lex} {p q : State Token Val Yy} (h : Lined fs text p₀ l p)
      (hok : StepOk fs text p) (hstep : step tables (client fs) p = .run q) :
      Lined fs text p₀ (tokenOf l p) q

/-- What the next step leaves, whether the run goes on or not. -/
def onward (fs : FileSystem) (p : State Token Val Yy) : Yy :=
  match step tables (client fs) p with
  | .run q => q.client
  | .done _ y => y

/-- The next step reports `d`. -/
def Issues (fs : FileSystem) (p : State Token Val Yy) (d : Diag) : Prop :=
  ∃ ds, (onward fs p).lex.diags = ds ++ p.client.lex.diags ∧ d ∈ ds

/-- A line number is that of the token in the configuration file, if it begins there. -/
def NamesLine (text : List Byte) (l : Option Lex) (lineno : Nat) : Prop :=
  ∀ s₀, l = some s₀ → (tokenStart s₀).2.prev = [] →
    ∃ before, text = before ++ fromToken (tokenStart s₀) ∧ lineno = 1 + before.count 10

/-- What is known of a state of such a run. -/
structure Located (text : List Byte) (l : Option Lex) (p : State Token Val Yy) : Prop where
  safe : MacroSafe p
  placed : Placed text p.client.lex
  line : NamesLine text l p.client.lex.lineno

theorem Located.accounted (h : Located text l p) (hok : ReadsOk text p.client.lex) :
    Accounted (1 + text.count 10) text p.client.lex := by
  refine ⟨h.safe.fitting.bounded, h.safe.plain.table, h.placed.balance, ?_⟩
  by_cases hprev : p.client.lex.prev = []
  · rw [rootAhead_of_nil hprev]
    exact hok.aligned hprev
  · rw [rootAhead_of_ne hprev]
    exact h.placed.rest

theorem Located.fetch (h : Located text l p) (hok : StepOk fs text p) (hcalls : Calls tables p) :
    Located text (tokenOf l p) (Yacc.fetch (client fs) p) := by
  have haccounted := h.accounted (hok.reads hcalls)
  refine ⟨h.safe.step (step_of_calls hcalls), ⟨?_, ?_⟩, fun s₀ hs₀ hprev => ?_⟩
  · exact haccounted.yylex_balance (hok.reads hcalls).kept
  · exact (lexKeeps_rest text).yylex h.placed.rest
  · rw [tokenOf, if_pos hcalls] at hs₀
    cases hs₀
    obtain ⟨before, hbefore, hline, -⟩ := haccounted.token_line (hok.reads hcalls) hprev
    exact ⟨before, hbefore, hline⟩

theorem Located.step (h : Located text l p) (hok : StepOk fs text p)
    (hstep : step tables (client fs) p = .run q) : Located text (tokenOf l p) q := by
  by_cases hcalls : Calls tables p
  · rw [step_of_calls hcalls] at hstep
    cases hstep
    exact h.fetch hok hcalls
  · have hpushing := pushing_of_run hstep hcalls
    refine ⟨h.safe.step hstep, pushing_placed hpushing hok h.placed, ?_⟩
    rw [tokenOf, if_neg hcalls, (pushing_reporting hpushing).lineno]
    exact h.line

theorem Lined.located (h : Lined fs text p₀ l p) (hp₀ : Located text none p₀) :
    Located text l p := by
  induction h with
  | start => exact hp₀
  | step _ hok hstep ih => exact ih.step hok hstep

/-- A step without a call of the lexer reports with the line that `yylval` has. -/
theorem onward_reporting (hcalls : ¬Calls tables p) : Reporting p.client.lex (onward fs p).lex := by
  rw [onward]
  split
  · next hstep => exact pushing_reporting (pushing_of_run hstep hcalls)
  · next hstep =>
      cases step_finish hstep with
      | same => exact .refl _
      | overflow hx => exact (pushing_reporting hx).trans (.report _ _)
      | error herr => exact erring_reporting herr

theorem Located.issues (h : Located text l p) (hok : StepOk fs text p) {d : Diag}
    (hd : Issues fs p d) : NamesLine text (tokenOf l p) d.lineno := by
  obtain ⟨ds, hds, hmem⟩ := hd
  by_cases hcalls : Calls tables p
  · intro s₀ hs₀ hprev
    rw [tokenOf, if_pos hcalls] at hs₀
    cases hs₀
    obtain ⟨before, hbefore, -, ds', hds', hall⟩ :=
      (h.accounted (hok.reads hcalls)).token_line (hok.reads hcalls) hprev
    rw [onward, step_of_calls hcalls] at hds
    change (yylex p.client.lex).2.diags = _ at hds
    rw [hds', List.append_cancel_right_eq] at hds
    exact ⟨before, hbefore, hall d (hds ▸ hmem)⟩
  · rw [tokenOf, if_neg hcalls, (onward_reporting hcalls).mem hds hmem]
    exact h.line

theorem located_start {g : Globals} (hg : Parsed g) (hplain : g.yy.lex.Plain)
    (hfiles : g.files = []) (hpush : g.yy.lex.pushback = []) {file : File}
    (hlineno : file.lineno = 1) : Located file.rest none (.initial (g.start file)) := by
  have hprev : (g.start file).lex.prev = [] := hfiles
  refine ⟨macroSafe_initial ⟨hg.bounded.pushback, hg.bounded.parsebuf⟩ (hplain.same rfl rfl rfl),
    ⟨⟨hplain.plainMacro, ?_⟩, ?_⟩, nofun⟩
  · change (g.start file).lex.root.lineno + (g.start file).lex.rootAhead.count 10 + _ = _
    rw [root_of_nil hprev, rootAhead_of_nil hprev, ite_self]
    change file.lineno + (g.yy.lex.pushback ++ file.rest).count 10 + 0 = _
    rw [hlineno, hpush]
    rfl
  · change (g.start file).lex.root.rest <:+ file.rest
    rw [root_of_nil hprev]
    exact List.suffix_rfl

theorem pushfile_lineno {files : List File} {name : CStr} {secret : Bool} {file : File}
    (h : pushfile fs files name secret = some file) : file.lineno = 1 := by
  rw [pushfile.eq_def] at h
  grind

/-- In a run whose steps all meet the conditions, every message for a token of the
configuration file names the line of the token. -/
theorem issues_line {filename : CStr} {file : File}
    (hfile : pushfile fs [] filename false = some file) {g : Globals} (hg : Parsed g)
    (hplain : g.yy.lex.Plain) (hfiles : g.files = [])
    (hpush : g.yy.lex.pushback = []) (h : Lined fs file.rest (.initial (g.start file)) l p)
    (hok : StepOk fs file.rest p) {d : Diag} (hd : Issues fs p d) {s₀ : Lex}
    (hs₀ : tokenOf l p = some s₀) (hroot : (tokenStart s₀).2.prev = []) :
    ∃ before, file.rest = before ++ fromToken (tokenStart s₀) ∧
      d.lineno = 1 + before.count 10 := by
  have hstart := located_start hg hplain hfiles hpush (pushfile_lineno hfile)
  exact (h.located hstart).issues hok hd s₀ hs₀ hroot

/-- `Lined`, with the steps counted. -/
def linedAfter (fs : FileSystem) (text : List Byte) :
    Nat → Option Lex → State Token Val Yy → Option (Option Lex × State Token Val Yy)
  | 0, l, p => some (l, p)
  | k + 1, l, p =>
      if StepOk fs text p then
        match step tables (client fs) p with
        | .run q => linedAfter fs text k (tokenOf l p) q
        | .done _ _ => none
      else none

theorem lined_of_after {k : Nat} {l l' : Option Lex} (h : Lined fs text p₀ l p)
    (hafter : linedAfter fs text k l p = some (l', q)) : Lined fs text p₀ l' q := by
  induction k generalizing l p with
  | zero =>
      cases hafter
      exact h
  | succ k ih =>
      rw [linedAfter] at hafter
      split at hafter
      · next hok =>
          split at hafter
          · next hstep => exact ih (h.step hok hstep) hafter
          · cases hafter
      · cases hafter

theorem exists_lined {k : Nat} (test : Option Lex → State Token Val Yy → Bool)
    (h : (linedAfter fs text k none p₀).any (fun r => test r.1 r.2) = true) :
    ∃ l p, Lined fs text p₀ l p ∧ test l p = true := by
  obtain ⟨⟨l, p⟩, hafter, htest⟩ := (Option.any_eq_true _ _).1 h
  exact ⟨l, p, lined_of_after .start hafter, htest⟩

/-- The next step reports exactly `d`, for a token with `rest` from it on. -/
def reportsAt (fs : FileSystem) (d : Diag) (rest : List Byte) (l : Option Lex)
    (p : State Token Val Yy) : Bool :=
  (onward fs p).lex.diags = d :: p.client.lex.diags &&
    (tokenOf l p).any fun s₀ => fromToken (tokenStart s₀) = rest

theorem issues_of_reportsAt {d : Diag} {rest : List Byte} (h : reportsAt fs d rest l p = true) :
    Issues fs p d ∧ ∃ s₀, tokenOf l p = some s₀ ∧ fromToken (tokenStart s₀) = rest := by
  rw [reportsAt, Bool.and_eq_true, decide_eq_true_eq] at h
  obtain ⟨s₀, hs₀, hrest⟩ := (Option.any_eq_true _ _).1 h.2
  exact ⟨⟨[d], h.1, List.mem_singleton_self d⟩, s₀, hs₀, of_decide_eq_true hrest⟩

/-- The configuration is read from the standard input. -/
def startOn (text : List Byte) : State Token Val Yy :=
  .initial ((Globals.initial []).start ⟨CStr.lit "stdin", text, 1, 0⟩)

theorem issues_line_brace :
    ∃ l p d s₀, Lined (withInclude (asciiBytes "\n\x7d\n") []) (asciiBytes "\n\x7d\n")
        (startOn (asciiBytes "\n\x7d\n")) l p ∧
      Issues (withInclude (asciiBytes "\n\x7d\n") []) p d ∧ tokenOf l p = some s₀ ∧
      d.lineno = 2 ∧
      ∃ before, asciiBytes "\n\x7d\n" = before ++ fromToken (tokenStart s₀) ∧
        d.lineno = 1 + before.count 10 := by
  have hrun : (linedAfter (withInclude (asciiBytes "\n\x7d\n") []) (asciiBytes "\n\x7d\n") 7 none
      (startOn (asciiBytes "\n\x7d\n"))).any (fun r =>
        StepOk (withInclude (asciiBytes "\n\x7d\n") []) (asciiBytes "\n\x7d\n") r.2 &&
        (tokenOf r.1 r.2).all (fun s₀ => (tokenStart s₀).2.prev = []) &&
        reportsAt (withInclude (asciiBytes "\n\x7d\n") [])
          ⟨CStr.lit "stdin", 2, .syntaxError⟩ (asciiBytes "\x7d\n") r.1 r.2) = true := by
    decide +kernel
  obtain ⟨l, p, hlined, htest⟩ := exists_lined (fun l p =>
    StepOk (withInclude (asciiBytes "\n\x7d\n") []) (asciiBytes "\n\x7d\n") p &&
      (tokenOf l p).all (fun s₀ => (tokenStart s₀).2.prev = []) && reportsAt _ _ _ l p) hrun
  simp only [Bool.and_eq_true, decide_eq_true_eq] at htest
  obtain ⟨⟨hok, hroot⟩, hreports⟩ := htest
  obtain ⟨hissues, s₀, hs₀, -⟩ := issues_of_reportsAt hreports
  rw [hs₀] at hroot
  have hfile : pushfile (withInclude (asciiBytes "\n\x7d\n") []) [] (CStr.lit "-") false =
      some ⟨CStr.lit "stdin", asciiBytes "\n\x7d\n", 1, 0⟩ := rfl
  exact ⟨l, p, _, s₀, hlined, hissues, hs₀, rfl, issues_line hfile (.initial [])
    ⟨nofun, nofun, nofun⟩ rfl rfl hlined hok hissues hs₀ (of_decide_eq_true hroot)⟩

/-- The first token of the included file is on its first line, and the message for it names
the second. -/
theorem include_counts_newline :
    ∃ l p d s₀, Lined (withInclude (asciiBytes "include \"f\"\n") (asciiBytes "\x7d\n"))
        (asciiBytes "include \"f\"\n") (startOn (asciiBytes "include \"f\"\n")) l p ∧
      Issues (withInclude (asciiBytes "include \"f\"\n") (asciiBytes "\x7d\n")) p d ∧
      tokenOf l p = some s₀ ∧ fromToken (tokenStart s₀) = asciiBytes "\x7d\n" ∧
      d = ⟨CStr.lit "f", 2, .syntaxError⟩ := by
  have hrun : (linedAfter (withInclude (asciiBytes "include \"f\"\n") (asciiBytes "\x7d\n"))
      (asciiBytes "include \"f\"\n") 12 none (startOn (asciiBytes "include \"f\"\n"))).any (fun r =>
        reportsAt (withInclude (asciiBytes "include \"f\"\n") (asciiBytes "\x7d\n"))
          ⟨CStr.lit "f", 2, .syntaxError⟩ (asciiBytes "\x7d\n") r.1 r.2) = true := by
    decide +kernel
  obtain ⟨l, p, hlined, hreports⟩ := exists_lined (reportsAt _ _ _) hrun
  obtain ⟨hissues, s₀, hs₀, hrest⟩ := issues_of_reportsAt hreports
  exact ⟨l, p, _, s₀, hlined, hissues, hs₀, hrest, rfl⟩

end Runs

end Ifconfigd.Parse
