import Ifconfigd.Lib.Yacc.Measure
import Ifconfigd.Parse.Include
import Ifconfigd.Parse.Progress

/-!
# Does parsing end?

Files that include each other cannot be nested deeper than the limit on open files, so
the stack of open files has a bounded height and reading goes down in the order that
compares it from the bottom up. An `include` adds a file, and pays for it with the file
name that was read from the file below.

That payment fails in one case: the end of a file was met while the file name at its end
was read, nothing was read from the file below, and the file to be included takes the
place of the one that was left. A run ends if and only if this happens finitely often.
-/

namespace Ifconfigd.Parse

open CLib Yacc Levels

/-! ## The automaton -/

/-- For each state a bound for the reductions in a row, less the entries they take from
the stack. -/
def ranks : List Nat :=
  [2, 0, 0, 0, 0, 0, 0, 0, 0, 0, 0, 0, 0, 0, 0, 0, 0, 0, 0, 0,
    1, 2, 0, 0, 8, 6, 8, 2, 4, 5, 5, 0, 0, 6, 0, 0, 2, 7, 7, 1,
    3, 5, 5, 1, 3, 7, 3, 7, 5, 5, 2, 2, 3, 0, 0, 0, 4, 0, 0, 0,
    0, 0, 0, 0, 2, 2, 3, 0, 0, 0, 0, 0, 0, 0, 4, 4, 4, 0, 0, 0,
    7, 7, 1, 0, 3, 3, 3, 4, 4, 3, 3, 3, 4, 4, 4, 4, 1, 0, 3, 3,
    3, 3, 3, 3, 3, 3, 3, 3, 5, 5, 1, 1, 3, 7, 3, 7, 5, 5, 2, 2,
    3, 0, 0, 0, 0, 2, 2, 3, 0, 1, 0, 3, 3, 3, 3, 1, 0, 3, 1, 1]

def rank (st : Nat) : Nat := ranks.getD st 0

/-- Reducing by a rule in a state goes down, over every state that can be below. -/
def descends (st n : Nat) : Bool :=
  (below (tables.len n) [st]).all fun st' =>
    (if st' = 0 ∧ tables.goal n then rank tables.final else rank (tables.goto n st')) + 2 ≤
      rank st + tables.len n

theorem descends_reductions :
    (List.range rows.length).all (fun st => (reductions st).eraseDups.all (descends st)) =
      true := by
  -- in parts, as for `fits_reductions`
  have hsplit : List.range rows.length = List.range 32 ++ List.range' 32 32 ++
      List.range' 64 32 ++ List.range' 96 (rows.length - 96) := by
    decide +kernel
  rw [hsplit, List.all_append, List.all_append, List.all_append]
  simp only [Bool.and_eq_true]
  refine ⟨⟨⟨?_, ?_⟩, ?_⟩, ?_⟩
  · decide +kernel
  · decide +kernel
  · decide +kernel
  · decide +kernel

theorem descends_of_reduces {V : Type} {stack : List (Nat × V)} (h : Path Edge stack) {n : Nat}
    (hn : tables.Reduces (top stack) n) :
    (if top (stack.drop (tables.len n)) = 0 ∧ tables.goal n then rank tables.final
      else rank (tables.goto n (top (stack.drop (tables.len n))))) + 2 ≤
      rank (top stack) + tables.len n := by
  have hst := List.mem_range.2 (lt_length_of_reduces hn)
  have hall := List.all_eq_true.1 descends_reductions _ hst
  have hdescends := List.all_eq_true.1 hall n (List.mem_eraseDups.2 (mem_reductions hn))
  have hbelow := mem_below h (len_le_of_reduces h hn) (List.mem_singleton.2 rfl)
  exact of_decide_eq_true (List.all_eq_true.1 hdescends _ hbelow)

theorem ranked (V : Type) : Ranked V tables Edge rank where
  sound := sound V
  noShift := shift_eof
  recovering st st' n herror hn := by
    rw [shiftError_eq herror] at hn
    have hmem := mem_reductions hn
    rw [show reductions 7 = [] by decide] at hmem
    cases hmem
  len_le _ _ hpath hn := len_le_of_reduces hpath hn
  goal stack n hpath hn hgoal := by
    have h := descends_of_reduces hpath hn
    rwa [if_pos hgoal] at h
  goto stack n hpath hn hgoal := by
    have h := descends_of_reduces hpath hn
    rwa [if_neg hgoal] at h

/-! ## The actions and the input -/

theorem InputKept.quiet {s s' : Lex} (h : InputKept s s') : Quiet s' ↔ Quiet s := by
  rw [Quiet, Quiet, h.parsebuf, h.pushback]

theorem InputKept.begun {s s' : Lex} (h : InputKept s s') (hs : Begun s) : Begun s' :=
  fun text i hbuf => hs text i (h.parsebuf ▸ hbuf)

theorem InputKept.poised {s s' : Lex} (h : InputKept s s') (hs : Poised s) : Poised s' := by
  intro text i hbuf
  rw [h.pushback]
  exact hs text i (h.parsebuf ▸ hbuf)

theorem Begun.poised {s : Lex} (h : Begun s) : Poised s := fun text i hbuf => .inl (h text i hbuf)

/-- The newline in front of an included file may stand before the beginning of a macro. -/
theorem poised_lungetc {s : Lex} (h : Begun s) {c : Int} (hc : c ≠ eof) : Poised (lungetc c s) := by
  intro text i hbuf'
  rw [lungetc, if_neg hc] at hbuf' ⊢
  cases hbuf : s.parsebuf with
  | none =>
      simp only [hbuf, lungetc.push] at hbuf'
      split at hbuf' <;> simp [hbuf] at hbuf'
  | some buf =>
      obtain ⟨text', j⟩ := buf
      have hj := h text' j hbuf
      simp only [hbuf] at hbuf' ⊢
      split at hbuf'
      · cases hbuf'
        exact .inl ‹_›
      · next hlt =>
          rw [if_neg hlt]
          simp only [lungetc.push] at hbuf' ⊢
          split at hbuf'
          · next hroom =>
              cases hbuf'
              rw [if_pos hroom]
              exact .inr ⟨by omega, by simp⟩
          · next hfull =>
              cases hbuf'
              rw [if_neg hfull]
              refine .inr ⟨by omega, fun hnil => hfull ?_⟩
              rw [show s.pushback = [] from hnil]
              decide

/-! ## The measure -/

/-- What is kept along a run, with at most `height` files open. -/
structure Steady (height : Nat) (p : State Token Val Yy) : Prop where
  accepting : p.accepting = true → top p.stack = tables.final
  named : top p.stack = afterName → p.look = none
  poised : p.look ≠ some tables.eof → Poised p.client.lex
  begun : p.look ≠ some tables.eof → p.look ≠ none ∨ top p.stack = afterName → Begun p.client.lex
  height : p.look ≠ some tables.eof → p.client.lex.levels.length ≤ height

/-- There is something to pay for a file with. -/
def credit (p : State Token Val Yy) : Nat :=
  if ¬Quiet p.client.lex ∨ top p.stack = afterInclude ∧ p.look = some .string ∨
      top p.stack = afterName then 1 else 0

theorem credit_le_one (p : State Token Val Yy) : credit p ≤ 1 := by
  rw [credit]
  split <;> decide

def progress (height : Nat) (p : State Token Val Yy) :=
  toLex (weight height (credit p) p.client.lex.levels,
    toLex (dollars p.client.lex, p.client.lex.size))

/-- The end of a file is met in the file name of an `include`, and nothing is read from
the file below. -/
def NameDropped (p : State Token Val Yy) : Prop :=
  Calls tables p ∧ top p.stack = afterInclude ∧ (yylex p.client.lex).1 = .string ∧
    Dropped (yylex p.client.lex).2.levels p.client.lex.levels

theorem progress_le_of_same {height : Nat} {p q : State Token Val Yy}
    (hsame : InputKept p.client.lex q.client.lex) (hcredit : credit q ≤ credit p) :
    progress height q ≤ progress height p := by
  have hdollars : dollars q.client.lex = dollars p.client.lex := by
    rw [dollars, dollars, hsame.pushback]
  have hsize := size_eq hsame.levels hsame.parsebuf hsame.pushback
  rw [progress, progress, hsame.levels, hdollars, hsize, Prod.Lex.toLex_le_toLex']
  exact ⟨weight_le hcredit, fun _ => le_refl _⟩

theorem progress_lt_of_weight {height : Nat} {p q : State Token Val Yy}
    (h : weight height (credit q) q.client.lex.levels <
      weight height (credit p) p.client.lex.levels) : progress height q < progress height p :=
  Prod.Lex.toLex_lt_toLex.2 (.inl h)

theorem Steady.top_ne {height : Nat} {p : State Token Val Yy} (h : Steady height p)
    (hcall : Calls tables p) : top p.stack ≠ afterName := by
  intro htop
  rcases hcall.2 with hacc | hdef
  · rw [h.accepting hacc] at htop
    cases htop
  · rw [htop] at hdef
    revert hdef
    decide

theorem yylex_of_clamp {s : Lex} (h : (yylex s).1.clamp ≠ tables.eof) : (yylex s).1 ≠ .char 0 := by
  intro heq
  rw [heq] at h
  exact h rfl

/-- Leaving a file makes the input smaller. -/
theorem input_lt_of_dropped {s s' : Lex} (h : Dropped s'.levels s.levels) (hquiet : Quiet s') :
    toLex (dollars s', s'.size) < toLex (dollars s, s.size) := by
  have hsize := inputSize_eq s
  have hsize' := inputSize_eq s'
  have hlt := h.total_lt
  rw [hquiet.1, List.length_nil] at hsize'
  refine Prod.Lex.toLex_lt_toLex'.2 ⟨?_, fun _ => ?_⟩
  · simp [dollars, hquiet.1]
  · simp only [Lex.size, Lex.macroSize, hquiet.2]
    omega

/-- A token is paid for by what was read, except for a file name at the end of a file. -/
theorem Steady.progress_fetch {fs : FileSystem} {height : Nat} {p : State Token Val Yy}
    (h : Steady height p) (hgood : ¬NameDropped p) (hcall : Calls tables p)
    (htoken : ((client fs).lex p.client).1 ≠ tables.eof) :
    progress height (fetch (client fs) p) < progress height p := by
  have hne : p.look ≠ some tables.eof := by rw [hcall.1]; nofun
  have hheight := h.height hne
  cases (yylex_progress (h.poised hne) (yylex_of_clamp htoken)).2 with
  | read hread =>
      exact progress_lt_of_weight (hread.weight_lt hheight (credit_le_one _))
  | dropped hdropped hquiet =>
      have hcredit : credit (fetch (client fs) p) = 0 := by
        refine if_neg ?_
        rintro (hloud | ⟨htop, hstring⟩ | htop)
        · exact hloud hquiet
        · exact hgood ⟨hcall, htop, clamp_eq_string (Option.some.inj hstring), hdropped⟩
        · exact h.top_ne hcall htop
      refine Prod.Lex.toLex_lt_toLex'.2 ⟨?_, fun _ => input_lt_of_dropped hdropped hquiet⟩
      rw [hcredit]
      exact hdropped.weight_le
  | pending hlevels hless =>
      have hloud := Progress.not_quiet hlevels hless
      have hcredit : credit p = 1 := if_pos (.inl hloud)
      refine Prod.Lex.toLex_lt_toLex'.2 ⟨?_, fun _ => hless⟩
      change weight height _ (yylex p.client.lex).2.levels ≤ _
      rw [hlevels, hcredit]
      exact weight_le (credit_le_one _)

theorem credit_le_of_quiet {p q : State Token Val Yy}
    (hquiet : Quiet q.client.lex ↔ Quiet p.client.lex)
    (hname : top q.stack = afterInclude → q.look = some .string → credit p = 1)
    (htop : top q.stack = afterName → credit p = 1) : credit q ≤ credit p := by
  have hone := credit_le_one q
  by_cases hcredit : ¬Quiet q.client.lex ∨ top q.stack = afterInclude ∧ q.look = some .string ∨
      top q.stack = afterName
  · have hp : credit p = 1 := by
      rcases hcredit with hloud | ⟨hinclude, hlook⟩ | hafter
      · exact if_pos (.inl (hquiet.not.1 hloud))
      · exact hname hinclude hlook
      · exact htop hafter
    omega
  · rw [credit, if_neg hcredit]
    exact Nat.zero_le _

/-- Opening a file goes down, at the price of its name. -/
theorem progress_include {fs : FileSystem} {height : Nat} {p : State Token Val Yy} {v : Val}
    {x : Yy} (h : Steady height p) (htop : top p.stack = afterName)
    (hact : (client fs).action 15 (p.stack.map Prod.snd) p.client = .ok v x)
    (stack : List (Nat × Val)) :
    progress height { p with stack, client := x } < progress height p := by
  obtain ⟨name, file, -, hlex⟩ := include_ok hact
  have hcredit : credit p = 1 := if_pos (.inr (.inr htop))
  have hne : p.look ≠ some tables.eof := by rw [h.named htop]; nofun
  apply progress_lt_of_weight
  rw [hcredit]
  change weight height _ x.lex.levels < _
  rw [hlex, lungetc_levels]
  exact weight_cons_lt _ (List.cons_ne_nil _ _) (h.height hne)

/-- A step that does not call the lexer adds no input that is not paid for. -/
theorem Steady.progress_step {fs : FileSystem} {height : Nat} {p q : State Token Val Yy}
    (h : Steady height p) (hstep : step tables (client fs) p = .run q) (hcall : ¬Calls tables p) :
    progress height q ≤ progress height p := by
  have hsame : InputKept p.client.lex p.client.lex := ⟨rfl, rfl, rfl⟩
  cases step_effect hstep with
  | fetch hcall' => exact absurd hcall' hcall
  | resume => exact le_refl _
  | @shift a st hacc hdef hlook hshift =>
      refine progress_le_of_same hsame (credit_le_of_quiet Iff.rfl (fun _ h => by cases h) ?_)
      intro htop
      rw [show st = afterName from htop] at hshift
      obtain ⟨hst, rfl⟩ := shift_afterName hshift
      exact if_pos (.inr (.inl ⟨hst, hlook⟩))
  | @goal n v x hred hact hgoal =>
      have hn : n ≠ 15 := by
        rintro rfl
        exact absurd hgoal.2 (by decide)
      have hsame := action_ok_inputKept hn hact
      exact progress_le_of_same hsame (credit_le_of_quiet hsame.quiet (fun h => by cases h)
        fun h => by cases h)
  | @reduce n v x hred hact hgoal =>
      by_cases hn : n = 15
      · subst hn
        exact (progress_include h (top_of_reduces_include hred.reduces) hact _).le
      · have hsame := action_ok_inputKept hn hact
        obtain ⟨hinclude, hname⟩ := goto_ne n (top (p.stack.drop (tables.len n)))
        exact progress_le_of_same hsame (credit_le_of_quiet hsame.quiet
          (fun h => absurd h hinclude) fun h => absurd h hname)
  | @recover x rest st herr hflag hpop =>
      have hsame := erring_inputKept herr
      obtain ⟨st', hst'⟩ := popToError_shiftError hpop
      obtain rfl := shiftError_eq hst'
      exact progress_le_of_same hsame (credit_le_of_quiet hsame.quiet (fun h => by cases h)
        fun h => by cases h)
  | discard herr hflag hlook =>
      have hsame := erring_inputKept herr
      exact progress_le_of_same hsame (credit_le_of_quiet hsame.quiet (fun _ h => by cases h)
        fun htop => if_pos (.inr (.inr htop)))

/-! ## The invariant -/

theorem Progress.length_le {s s' : Lex} (h : Progress s' s) :
    s'.levels.length ≤ s.levels.length := by
  cases h with
  | read hread =>
      obtain ⟨above, x', x, lower, hl', hl, -⟩ := hread
      rw [hl', hl, List.length_append, List.length_cons, List.length_cons]
      omega
  | dropped hdropped =>
      obtain ⟨above, -, hl⟩ := hdropped
      rw [hl, List.length_append]
      omega
  | pending hlevels => rw [hlevels]

theorem pushfile_length {fs : FileSystem} {limit : Nat} (hlimit : fs.openMax = some limit)
    {files : List File} (hne : files ≠ []) {name : CStr} {secret : Bool} {file : File}
    (h : pushfile fs files name secret = some file) : files.length < limit := by
  by_contra hfull
  have hopen : fopen fs files.length name = none := by simp [fopen, hlimit, hfull]
  simp [pushfile, hne, hopen] at h

/-- A step that leaves the input alone keeps the invariant, in a state that does not come
after a file name. -/
theorem Steady.of_same {height : Nat} {p q : State Token Val Yy} (h : Steady height p)
    (hsame : InputKept p.client.lex q.client.lex) (hlook : q.look = p.look)
    (hacc : q.accepting = true → top q.stack = tables.final) (htop : top q.stack ≠ afterName) :
    Steady height q where
  accepting := hacc
  named htop' := absurd htop' htop
  poised hne := hsame.poised (h.poised (hlook ▸ hne))
  begun hne hlook' := by
    rw [hlook] at hne hlook'
    exact hsame.begun (h.begun hne (.inl (hlook'.resolve_right htop)))
  height hne := by
    rw [hsame.levels]
    exact h.height (hlook ▸ hne)

theorem Steady.fetch {fs : FileSystem} {height : Nat} {p : State Token Val Yy}
    (h : Steady height p) (hcall : Calls tables p) : Steady height (fetch (client fs) p) := by
  have hne : p.look ≠ some tables.eof := by rw [hcall.1]; nofun
  have hprogress := fun htoken => yylex_progress (h.poised hne) (yylex_of_clamp htoken)
  refine ⟨h.accepting, fun htop => absurd htop (h.top_ne hcall), fun hlook => ?_,
    fun hlook _ => ?_, fun hlook => ?_⟩
  all_goals have htoken : (yylex p.client.lex).1.clamp ≠ tables.eof := fun h => hlook (by
    rw [← h]; rfl)
  · exact (hprogress htoken).1.poised
  · exact (hprogress htoken).1
  · exact (hprogress htoken).2.length_le.trans (h.height hne)

theorem Steady.include {fs : FileSystem} {limit height : Nat} (hlimit : fs.openMax = some limit)
    (hle : limit ≤ height) {p : State Token Val Yy} (h : Steady height p)
    (htop : top p.stack = afterName) {v : Val} {x : Yy}
    (hact : (client fs).action 15 (p.stack.map Prod.snd) p.client = .ok v x)
    {stack : List (Nat × Val)} (hacc : p.accepting = true → top stack = tables.final)
    (htop' : top stack ≠ afterName) : Steady height { p with stack, client := x } := by
  obtain ⟨name, file, hfile, hlex⟩ := include_ok hact
  have hlook := h.named htop
  have hne : p.look ≠ some tables.eof := by rw [hlook]; nofun
  have hbegun : Begun { p.client.lex with file, prev := p.client.lex.file :: p.client.lex.prev } :=
    h.begun hne (.inr htop)
  refine ⟨hacc, fun htop'' => absurd htop'' htop', fun _ => ?_, fun _ hname => ?_, fun _ => ?_⟩
  · change Poised x.lex
    rw [hlex]
    exact poised_lungetc hbegun (c := ch '\n') (by decide)
  · rcases hname with hsome | htop''
    · exact absurd hlook hsome
    · exact absurd htop'' htop'
  · change x.lex.levels.length ≤ height
    rw [hlex, lungetc_levels]
    have hlength := pushfile_length hlimit (List.cons_ne_nil _ _) hfile
    simp only [Lex.levels, List.map_cons, List.length_cons, List.length_map] at hlength ⊢
    omega

theorem Steady.step {fs : FileSystem} {limit height : Nat} (hlimit : fs.openMax = some limit)
    (hle : limit ≤ height) {p q : State Token Val Yy} (h : Steady height p)
    (hstep : step tables (client fs) p = .run q) : Steady height q := by
  have hsame : InputKept p.client.lex p.client.lex := ⟨rfl, rfl, rfl⟩
  cases step_effect hstep with
  | fetch hcall => exact h.fetch hcall
  | resume hacc hlook hne =>
      refine h.of_same hsame rfl nofun fun htop => ?_
      rw [h.named htop] at hlook
      cases hlook
  | @shift a st hacc hdef hlook hshift =>
      have hne : p.look ≠ some tables.eof := by
        rintro heof
        rw [hlook] at heof
        cases heof
        rw [shift_eof] at hshift
        cases hshift
      refine ⟨fun hacc' => ?_, fun _ => rfl, fun _ => h.poised hne, fun _ _ => ?_,
        fun _ => h.height hne⟩
      · exact absurd hacc' (by simp [hacc])
      · exact h.begun hne (.inl (by rw [hlook]; nofun))
  | @goal n v x hred hact hgoal =>
      have hn : n ≠ 15 := by
        rintro rfl
        exact absurd hgoal.2 (by decide)
      exact h.of_same (action_ok_inputKept hn hact) rfl (fun _ => rfl) nofun
  | @reduce n v x hred hact hgoal =>
      have hname := (goto_ne n (top (p.stack.drop (tables.len n)))).2
      have hacc : p.accepting = true →
          tables.goto n (top (p.stack.drop (tables.len n))) = tables.final := by
        intro hacc
        rw [hred.accepting] at hacc
        cases hacc
      by_cases hn : n = 15
      · subst hn
        exact h.include hlimit hle (top_of_reduces_include hred.reduces) hact hacc hname
      · exact h.of_same (action_ok_inputKept hn hact) rfl hacc hname
  | @recover x rest st herr hflag hpop =>
      obtain ⟨st', hst'⟩ := popToError_shiftError hpop
      obtain rfl := shiftError_eq hst'
      refine h.of_same (erring_inputKept herr) rfl (fun hacc => ?_) nofun
      exact absurd hacc (by simp [herr.accepting])
  | discard herr hflag hlook =>
      have hsame := erring_inputKept herr
      refine ⟨fun hacc => ?_, fun _ => rfl, fun _ => hsame.poised (h.poised hlook),
        fun _ hname => ?_, fun _ => ?_⟩
      · exact absurd hacc (by simp [herr.accepting])
      · exact hsame.begun (h.begun hlook (.inr (hname.resolve_left fun hsome => hsome rfl)))
      · exact hsame.levels ▸ h.height hlook

theorem steady_initial {g : Globals} {file : File} {height : Nat} (hpoised : Poised g.yy.lex)
    (hheight : g.files.length < height) : Steady height (.initial (g.start file)) where
  accepting := nofun
  named := nofun
  poised _ := hpoised
  begun _ h := by rcases h with h | h <;> first | exact absurd rfl h | cases h
  height _ := by
    simp only [State.initial, Globals.start, Lex.levels, List.length_cons, List.length_map]
    omega

theorem exists_parseConfig_iff {fs : FileSystem} {filename : CStr} {g : Globals} {file : File}
    (hfile : pushfile fs g.files filename false = some file) (fuel : Nat) :
    (∃ r, parseConfig fs fuel filename g = some r) ↔
      ∃ r, run tables (client fs) fuel (.initial (g.start file)) = some r := by
  simp only [parseConfig, hfile]
  split
  · next hrun => simp [hrun]
  · next hrun => simp [hrun]
  · next hrun => simp [hrun]

/-- Parsing ends if and only if from some point on no file name of an `include` is read
over the end of its file without anything of the file below. -/
theorem parse_ends_iff {fs : FileSystem} {limit : Nat} (hlimit : fs.openMax = some limit)
    (filename : CStr) (symhead : List Sym) :
    (∃ fuel r, parseConfig fs fuel filename (.initial symhead) = some r) ↔
      ∃ k, ∀ file, pushfile fs [] filename false = some file → ∀ j, k ≤ j → ∀ q,
        steps tables (client fs) j (.initial ((Globals.initial symhead).start file)) = some q →
          ¬NameDropped q := by
  cases hfile : pushfile fs [] filename false with
  | none =>
      have hreturn : parseConfig fs 0 filename (.initial symhead) =
          some (.returned none (.initial symhead)) := by
        rw [parseConfig.eq_def, show (Globals.initial symhead).files = [] from rfl, hfile]
      exact iff_of_true ⟨0, _, hreturn⟩ ⟨0, fun _ h => by cases h⟩
  | some file =>
      have hsteady : Steady (limit + 1)
          (.initial ((Globals.initial symhead).start file)) :=
        steady_initial (fun _ _ h => by cases h) (Nat.succ_pos limit)
      have hends := exists_run_iff_eventually (ranked Val)
        (fun p q h hstep => Steady.step hlimit (Nat.le_succ limit) h hstep)
        (fun p q h hstep hcall => h.progress_step hstep hcall)
        (fun p h hgood hcall htoken => h.progress_fetch hgood hcall htoken) hsteady
        (orderly_initial tables Edge _)
      simp only [exists_parseConfig_iff (g := .initial symhead) hfile, Option.some.injEq,
        forall_eq']
      exact hends

/-- Standard input that includes a file, which includes itself in its only line, with or
without a newline at its end. -/
def selfIncluding (last : String) : FileSystem where
  stdin := (CStr.lit "include \"F\"\n").bytes
  inode name :=
    if name = CStr.lit "F" then some ⟨(CStr.lit ("include F" ++ last)).bytes, 0, 0o600⟩ else none
  uid := 0
  openMax := some 2

/-- With the newline the file is opened up to the limit, and parsing ends. -/
theorem parse_ends_with_newline :
    ∃ k, ∀ file, pushfile (selfIncluding "\n") [] (CStr.lit "-") false = some file →
      ∀ j, k ≤ j → ∀ q, steps tables (client (selfIncluding "\n")) j
        (.initial ((Globals.initial []).start file)) = some q → ¬NameDropped q := by
  have hlimit : (selfIncluding "\n").openMax = some 2 := rfl
  refine (parse_ends_iff hlimit (CStr.lit "-") []).1 ⟨100, ?_⟩
  rw [← Option.isSome_iff_exists]
  decide +kernel

deriving instance DecidableEq for State

/-- Without it every name takes the place of its file, and the parser comes back to the
same state. -/
theorem self_inclusion_never_ends :
    ¬∃ fuel r, parseConfig (selfIncluding "") fuel (CStr.lit "-") (.initial []) = some r := by
  let start : State Token Val Yy :=
    .initial ((Globals.initial []).start ⟨CStr.lit "stdin", (selfIncluding "").stdin, 1, 0⟩)
  have hfile : pushfile (selfIncluding "") [] (CStr.lit "-") false =
      some ⟨CStr.lit "stdin", (selfIncluding "").stdin, 1, 0⟩ := rfl
  have hcycle : (steps tables (client (selfIncluding "")) 30 start).isSome ∧
      (steps tables (client (selfIncluding "")) 30 start).bind
        (steps tables (client (selfIncluding "")) 9) =
      steps tables (client (selfIncluding "")) 30 start := by decide +kernel
  obtain ⟨q, hq⟩ := Option.isSome_iff_exists.1 hcycle.1
  have hagain := hcycle.2
  rw [hq, Option.bind_some] at hagain
  rintro ⟨fuel, hsome⟩
  obtain ⟨r, hr⟩ := (exists_parseConfig_iff (g := .initial []) hfile fuel).1 hsome
  have hnone := run_eq_none_of_cycle hq hagain fuel
  rw [show run tables (client (selfIncluding "")) fuel _ = none from hnone] at hr
  cases hr

end Ifconfigd.Parse
