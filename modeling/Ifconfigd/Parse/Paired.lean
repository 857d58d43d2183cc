import Ifconfigd.Parse.Again
import Ifconfigd.Parse.LexPair

/-!
# Parsers whose lexers differ

The actions read the values on the stack that their rules name, and of the lexer they use
only what `yyerror`, `include` and macro definitions need. So two parsers that differ in
other values and in their lexers do the same.
-/

namespace Ifconfigd.Parse

open CLib Yacc

/-! ## The values an action reads -/

section Values

variable {C D : Type} {Q : Val → Val → Prop} {v w : Val} {vs ws : List Val} {i : Nat} {y : Yy}

theorem withString_matches {R : Yy → Yy → Prop} {k k' : CStr → Outcome Val Yy}
    (hi : ws[i]? = vs[i]?) (h : ∀ s, Outcome.Matches Q R (k s) (k' s)) :
    Outcome.Matches Q R (withString vs i k) (withString ws i k') := by
  rw [withString, withString, hi]
  split
  · exact h _
  · exact .crash

theorem withNumber_matches {R : Yy → Yy → Prop} {k k' : Int → Outcome Val Yy}
    (hi : ws[i]? = vs[i]?) (h : ∀ n, Outcome.Matches Q R (k n) (k' n)) :
    Outcome.Matches Q R (withNumber vs i k) (withNumber ws i k') := by
  rw [withNumber, withNumber, hi]
  split
  · exact h _
  · exact .crash

theorem withPtr_values {p : Option Nat} {k : Nat → Yy} :
    Outcome.Matches (Alternative v w) (· = ·) (withPtr p fun i => .ok v (k i))
      (withPtr p fun i => .ok w (k i)) := by
  cases p with
  | none => exact .crash
  | some i => exact .ok (.inl ⟨rfl, rfl⟩) rfl

theorem actInclude_values (fs : FileSystem) (name : CStr) :
    Outcome.Matches (Alternative v w) (· = ·) (actInclude fs v name y) (actInclude fs w name y) := by
  rw [actInclude, actInclude]
  split
  · exact .error rfl
  · exact .ok (.inl ⟨rfl, rfl⟩) rfl

theorem actGlobal_values (n : Int) :
    Outcome.Matches (Alternative v w) (· = ·) (actGlobal v n y) (actGlobal w n y) := by
  rw [actGlobal, actGlobal]
  split
  · exact .error rfl
  · exact .ok (.inl ⟨rfl, rfl⟩) rfl

theorem actNetwork_values (name : CStr) :
    Outcome.Matches (Alternative v w) (· = ·) (actNetwork v name y) (actNetwork w name y) := by
  rw [actNetwork, actNetwork]
  split
  · exact .error rfl
  · exact .ok (.inl ⟨rfl, rfl⟩) rfl

theorem actEthernetDhcp_values (yes : Int) :
    Outcome.Matches (Alternative v w) (· = ·) (actEthernetDhcp v yes y)
      (actEthernetDhcp w yes y) := by
  rw [actEthernetDhcp, actEthernetDhcp]
  split <;> exact withPtr_values

theorem actWirelessDhcp_values (yes : Int) :
    Outcome.Matches (Alternative v w) (· = ·) (actWirelessDhcp v yes y)
      (actWirelessDhcp w yes y) := by
  rw [actWirelessDhcp, actWirelessDhcp]
  split <;> exact withPtr_values

/-- Values that the action of a rule does not read matter only for its default value. -/
theorem action_values {fs : FileSystem} {n : Nat} (hvs : ∀ i < reads n, ws[i]? = vs[i]?) :
    Outcome.Matches (Alternative v w) (· = ·) (action fs n vs v y) (action fs n ws w y) := by
  unfold action
  split
  all_goals first
    | exact .ok (.inl ⟨rfl, rfl⟩) rfl
    | exact .ok (.inr rfl) rfl
    | exact withString_matches (hvs 0 (by decide)) fun _ => withPtr_values
    | exact withNumber_matches (hvs 0 (by decide)) fun _ => withPtr_values
    | exact withString_matches (hvs 0 (by decide)) fun _ => actInclude_values fs _
    | exact withNumber_matches (hvs 0 (by decide)) fun _ => actGlobal_values _
    | exact withString_matches (hvs 0 (by decide)) fun _ => actNetwork_values _
    | exact withNumber_matches (hvs 0 (by decide)) fun _ => actEthernetDhcp_values _
    | exact withNumber_matches (hvs 0 (by decide)) fun _ => actWirelessDhcp_values _
    | exact withString_matches (hvs 1 (by decide)) fun _ =>
        withString_matches (hvs 0 (by decide)) fun _ => .ok (.inr rfl) rfl
    | exact withString_matches (hvs 1 (by decide)) fun _ =>
        withString_matches (hvs 0 (by decide)) fun _ => .ok (.inl ⟨rfl, rfl⟩) rfl

theorem action_values_read {fs : FileSystem} {n : Nat} (hn : n ∈ [13, 14, 16])
    (hvs : ∀ i < reads n, ws[i]? = vs[i]?) :
    Outcome.Matches (fun a b => b = a) (· = ·) (action fs n vs v y) (action fs n ws w y) := by
  simp only [List.mem_cons, List.not_mem_nil, or_false] at hn
  rcases hn with rfl | rfl | rfl
  · exact .ok rfl rfl
  · exact .ok rfl rfl
  · exact withString_matches (hvs 1 (by decide)) fun _ =>
      withString_matches (hvs 0 (by decide)) fun _ => .ok rfl rfl

/-- The values of a rule over two stacks agree where they are read. -/
theorem client_action_values {fs : FileSystem} {n : Nat} {stack stack' : List (Nat × Val)}
    (hpath : Path Edge stack) (hstack : List.Forall₂ (Entries SameValue) stack stack')
    (hred : tables.Reduces (top stack) n) :
    Outcome.Matches
      (fun v w => SameValue tables.final v w ∧ ∀ st, SameValue (tables.goto n st) v w) (· = ·)
      ((client fs).action n (stack.map Prod.snd) y)
      ((client fs).action n (stack'.map Prod.snd) y) := by
  have hvs : ∀ i < reads n, (stack'.map Prod.snd)[i]? = (stack.map Prod.snd)[i]? :=
    fun i hi => read_values hpath hstack hred hi
  have hfinal : ∀ v w : Val, SameValue tables.final v w := fun _ _ hv => absurd hv (by decide)
  have htrue : ((client fs).action n (stack.map Prod.snd) y).Holds fun _ => True := by
    cases (client fs).action n (stack.map Prod.snd) y <;> trivial
  by_cases hn : n ∈ [13, 14, 16]
  · exact (action_values_read hn hvs).mono htrue (fun v w hw => ⟨hfinal v w, fun _ _ => hw⟩)
      fun _ _ h _ => h
  · exact (action_values hvs).mono htrue
      (fun v w hw => ⟨hfinal v w, fun _ => sameValue_goto hn hvs hw⟩) fun _ _ h _ => h

end Values

/-! ## The lexers the actions use -/

/-- Two parsers that differ in their lexers only. -/
structure Paired (L : Lex → Lex → Prop) (y z : Yy) : Prop where
  same : z = y.withLex z.lex
  lex : L y.lex z.lex

/-- What the actions do to the lexer keeps `L`. -/
structure ActsAlike (L : Lex → Lex → Prop) : Prop where
  yyerror : ∀ {s t} (m : Message), L s t → L (yyerror m s) (yyerror m t)
  count : ∀ {s t}, L s t → L { s with file := { s.file with errors := s.file.errors + 1 } }
    { t with file := { t.file with errors := t.file.errors + 1 } }
  push : ∀ {s t} (nfile : File), L s t →
    L (lungetc (ch '\n') { s with file := nfile, prev := s.file :: s.prev })
      (lungetc (ch '\n') { t with file := nfile, prev := t.file :: t.prev })
  varset : ∀ {s t} (nam val : CStr), L s t →
    L { s with symhead := symset nam val false s.symhead }
      { t with symhead := symset nam val false t.symhead }

/-- The same files can be included in both. -/
def SameOpens (fs fs' : FileSystem) (s t : Lex) : Prop :=
  ∀ name, pushfile fs' (t.file :: t.prev) name true = pushfile fs (s.file :: s.prev) name true

section Paired

variable {L : Lex → Lex → Prop} {fs fs' : FileSystem} {n : Nat} {vs : List Val} {v : Val}
  {y z : Yy}

theorem action_fs (hn : n ≠ 15) : action fs' n vs v y = action fs n vs v y := by
  unfold action
  split <;> first | exact absurd rfl hn | rfl

theorem actInclude_paired (hL : ActsAlike L) (h : Paired L y z) (hopen : SameOpens fs fs' y.lex z.lex)
    (name : CStr) : Outcome.Matches (· = ·) (Paired L) (actInclude fs v name y)
      (actInclude fs' v name z) := by
  obtain ⟨hsame, hlex⟩ := h
  rw [actInclude, actInclude, hopen name]
  split
  · exact .error ⟨by rw [hsame]; rfl, hL.yyerror _ hlex⟩
  · exact .ok rfl ⟨by rw [hsame]; rfl, hL.push _ hlex⟩

theorem action_paired (hL : ActsAlike L) (h : Paired L y z)
    (hopen : n = 15 → SameOpens fs fs' y.lex z.lex) :
    Outcome.Matches (· = ·) (Paired L) (action fs n vs v y) (action fs' n vs v z) := by
  obtain ⟨hsame, hlex⟩ := h
  by_cases hn : n ∈ [7, 15, 18]
  · simp only [List.mem_cons, List.not_mem_nil, or_false] at hn
    rcases hn with rfl | rfl | rfl
    · exact .ok rfl ⟨by rw [hsame]; rfl, hL.count hlex⟩
    · exact withString_matches rfl fun name =>
        actInclude_paired hL ⟨hsame, hlex⟩ (hopen rfl) name
    · exact withString_matches rfl fun nam => withString_matches rfl fun val =>
        .ok rfl ⟨by rw [hsame]; rfl, hL.varset nam val hlex⟩
  · have hne : n ≠ 15 := by
      rintro rfl
      exact hn (by decide)
    have halike := action_alike y.lex z.lex fs hn vs v y
    rw [← hsame, show y.withLex y.lex = y from rfl] at halike
    rw [@action_fs fs fs' n vs v z hne]
    generalize action fs n vs v y = o at halike
    generalize action fs n vs v z = o' at halike
    cases halike with
    | ok v hx hz =>
        subst hz
        exact .ok rfl ⟨rfl, by rw [hx]; exact hlex⟩
    | fail m hx hz =>
        subst hz
        exact .error ⟨rfl, by rw [hx]; exact hL.yyerror m hlex⟩
    | crash => exact .crash

/-- The action of a rule in two parsers. -/
theorem client_action_paired (hL : ActsAlike L) (h : Paired L y z) {stack stack' : List (Nat × Val)}
    (hpath : Path Edge stack) (hstack : List.Forall₂ (Entries SameValue) stack stack')
    (hred : tables.Reduces (top stack) n) (hopen : n = 15 → SameOpens fs fs' y.lex z.lex) :
    Outcome.Matches
      (fun v w => SameValue tables.final v w ∧ ∀ st, SameValue (tables.goto n st) v w) (Paired L)
      ((client fs).action n (stack.map Prod.snd) y)
      ((client fs').action n (stack'.map Prod.snd) z) :=
  (action_paired hL h hopen).trans_eq (client_action_values hpath hstack hred)

end Paired

/-! ## The flag after an error -/

/-- The state after the `error` token. -/
def afterError : Nat := 7

theorem shift_afterError {a : Token} {st : Nat} (h : tables.shift afterError a = some st) :
    st ≠ afterInclude := by
  have hrow : ∀ e ∈ (row afterError).shifts, e.2 ≠ afterInclude := by decide
  exact hrow _ (mem_of_entry h)

theorem not_reduces_afterError (n : Nat) : ¬tables.Reduces afterError n := by
  intro h
  have hnil : reductions afterError = [] := by decide
  have hmem := mem_reductions h
  rw [hnil] at hmem
  cases hmem

theorem action_error_lex {fs : FileSystem} {n : Nat} {vs : List Val} {v : Val} {y x : Yy}
    (h : action fs n vs v y = .error x) : ∃ m, x.lex = yyerror m y.lex := by
  by_cases hn : n ∈ [7, 15, 18]
  · simp only [List.mem_cons, List.not_mem_nil, or_false] at hn
    rcases hn with rfl | rfl | rfl
    · cases h
    · exact include_error_lex h
    · simp only [action, withString] at h
      split at h
      · split at h <;> cases h
      · cases h
  · have halike := action_alike y.lex y.lex fs hn vs v y
    rw [show y.withLex y.lex = y from rfl, h] at halike
    cases halike with
    | fail m hx => exact ⟨m, hx⟩

theorem popWhileEof_errors_ne (f : File) (prev : List File) (h : f.errors ≠ 0) :
    (popWhileEof f prev).2.1.errors ≠ 0 := by
  fun_induction popWhileEof f prev with
  | case1 => exact h
  | case2 f p ps hrest ih => exact ih (by simp only; omega)
  | case3 f p ps b rest hrest => simp only; omega

theorem lgetcInput_errors_ne (quotec : Int) {s : Lex} (h : s.file.errors ≠ 0) :
    (lgetcInput quotec s).2.file.errors ≠ 0 := by
  simp only [lgetcInput]
  split
  · exact h
  split
  · rw [getcQuoted.eq_def]
    split
    · exact h
    · cases hprev : s.prev <;> simp only [popfile, yyerror, hprev] <;> omega
  · simp only [getcJoined]
    split
    · exact h
    · exact popWhileEof_errors_ne _ _ h

/-- Errors that were counted stay counted in the file that is read. -/
theorem lexKeeps_errors_ne : LexKeeps fun s => s.file.errors ≠ 0 where
  lgetc quotec _ := lgetc_holds (P := fun s => s.file.errors ≠ 0) (fun _ _ h => h) fun _ h =>
    lgetcInput_errors_ne quotec h
  lungetc c _ h := lungetc_holds (P := fun s => s.file.errors ≠ 0) (fun _ _ h => h)
    (fun _ _ h => h) h c
  yyerror _ _ _ := Nat.succ_ne_zero _
  endMacro _ h := h
  startMacro _ _ _ h _ := h
  nextLine _ h := h
  lineno _ _ h := h
  val _ _ h := h

/-- After an error the flag is set until three tokens were shifted, so a file cannot be
included while it is: the error was counted in the file that is read. -/
structure Flagged (p : State Token Val Yy) : Prop where
  le : p.errflag ≤ 3
  low : p.errflag < 3 ∨ top p.stack = afterError
  afterInclude : top p.stack = afterInclude → p.errflag ≤ 1
  afterName : top p.stack = afterName → p.errflag = 0
  errors : p.errflag ≠ 0 → p.client.lex.file.errors ≠ 0

section Flagged

variable {fs : FileSystem} {p q : State Token Val Yy}

theorem flagged_initial (y : Yy) : Flagged (.initial y) :=
  ⟨Nat.zero_le _, .inl (Nat.zero_lt_succ 2), nofun, nofun, fun h => absurd rfl h⟩

theorem Flagged.erring (h : Flagged p) {x : Yy} (herr : Erring tables (client fs) p x) :
    x.lex.file.errors ≠ 0 := by
  cases herr with
  | action hred hact =>
      obtain ⟨m, hlex⟩ := action_error_lex hact
      rw [hlex]
      exact Nat.succ_ne_zero _
  | token =>
      split
      · exact Nat.succ_ne_zero _
      · next hflag => exact h.errors hflag

theorem Flagged.lt_of_reducing (h : Flagged p) {n : Nat} (hred : Reducing tables p n) :
    p.errflag < 3 :=
  h.low.resolve_right fun htop => not_reduces_afterError n (htop ▸ hred.reduces)

theorem Flagged.errors_of_ok (h : Flagged p) {n : Nat} (hred : Reducing tables p n) {v : Val}
    {x : Yy} (hact : (client fs).action n (p.stack.map Prod.snd) p.client = .ok v x)
    (hflag : p.errflag ≠ 0) : x.lex.file.errors ≠ 0 := by
  have herrors := h.errors hflag
  have heffect := action_lexEffect fs n (p.stack.map Prod.snd)
    (defaultVal n (p.stack.map Prod.snd)) p.client
  change action fs n _ _ _ = _ at hact
  rw [hact] at heffect
  cases heffect with
  | same hlex => rwa [hlex]
  | report m hlex => rw [hlex]; exact Nat.succ_ne_zero _
  | grammarError _ hlex => rw [hlex]; exact Nat.succ_ne_zero _
  | «include» hn =>
      subst hn
      exact absurd (h.afterName (top_of_reduces_include hred.reduces)) hflag
  | varset _ nam val hlex => rwa [hlex]

theorem Flagged.step (h : Flagged p) (hstep : step tables (client fs) p = .run q) : Flagged q := by
  cases step_effect hstep with
  | fetch hcalls =>
      exact ⟨h.le, h.low, h.afterInclude, h.afterName,
        fun hflag => lexKeeps_errors_ne.yylex (h.errors hflag)⟩
  | resume => exact ⟨h.le, h.low, h.afterInclude, h.afterName, h.errors⟩
  | @shift a st hacc hdef hlook hshift =>
      have hle := h.le
      refine ⟨by simp only; omega, .inl (by simp only; omega), fun htop => ?_, fun htop => ?_,
        fun hflag => h.errors (by simp only at hflag; omega)⟩
      · have hlt : p.errflag < 3 := by
          refine h.low.resolve_right fun herr => ?_
          rw [herr] at hshift
          exact shift_afterError hshift htop
        simp only
        omega
      · obtain rfl : st = Parse.afterName := htop
        have hflag := h.afterInclude (shift_afterName hshift).1
        simp only
        omega
  | goal hred hact =>
      exact ⟨h.le, .inl (h.lt_of_reducing hred), nofun, nofun, h.errors_of_ok hred hact⟩
  | reduce hred hact =>
      exact ⟨h.le, .inl (h.lt_of_reducing hred), fun htop => absurd htop (goto_ne _ _).1,
        fun htop => absurd htop (goto_ne _ _).2, h.errors_of_ok hred hact⟩
  | recover herr hflag hpop =>
      obtain ⟨st', hst'⟩ := popToError_shiftError hpop
      obtain rfl := shiftError_eq hst'
      exact ⟨Nat.le_refl 3, .inr rfl, nofun, nofun, fun _ => h.erring herr⟩
  | discard herr => exact ⟨h.le, h.low, h.afterInclude, h.afterName, fun _ => h.erring herr⟩

theorem Flagged.reaches (h : Flagged p) (hreach : Reaches tables (client fs) p q) : Flagged q :=
  hreach.invariant (fun _ _ h hstep => h.step hstep) h

end Flagged

/-! ## Parsers abreast -/

/-- Two lexers and a lookahead: a token that carries a value has the same in both. -/
structure LexPairWith (Fr : List File → List File → Prop) (look : Option Token) (s t : Lex) :
    Prop where
  pair : LexPair Fr s t
  val : look = some .string ∨ look = some .number → t.val = s.val

/-- What the actions and the parser itself ask of files: a file is opened in front of the
others, and an error is counted in the current one, of both or of only one of them where
the other one has counted an error before. -/
structure FilesActs (Fr : List File → List File → Prop) : Prop where
  push : ∀ {files files' : List File} (nfile : File), Fr files files' →
    Fr (nfile :: files) (nfile :: files')
  countFirst : ∀ {f f' : File} {prev prev' : List File}, Fr (f :: prev) (f' :: prev') →
    f'.errors ≠ 0 → Fr ({ f with errors := f.errors + 1 } :: prev) (f' :: prev')
  countSecond : ∀ {f f' : File} {prev prev' : List File}, Fr (f :: prev) (f' :: prev') →
    f.errors ≠ 0 → Fr (f :: prev) ({ f' with errors := f'.errors + 1 } :: prev')

/-- The pairs of states that come up: the next call of the lexer does not lead the first one
into a bad state, and the next include opens the same file. -/
structure Proceeds (Bad : Lex → Prop) (fs fs' : FileSystem) (p q : State Token Val Yy) : Prop where
  first : Flagged p
  second : Flagged q
  path : Path Edge p.stack
  good : Calls tables p → ¬Bad (yylex p.client.lex).2
  opens : Reducing tables p 15 → SameOpens fs fs' p.client.lex q.client.lex

/-- The flags may differ as long as no tokens are skipped. -/
def Late (e e' : Nat) : Prop := e' = e ∨ e < 3 ∧ e' < 3

section Abreast

variable {Bad : Lex → Prop} {Fr : List File → List File → Prop} {fs fs' : FileSystem}

theorem actsAlike_lexPairWith (hF : FilesSim Bad Fr) (hA : FilesActs Fr) (look : Option Token) :
    ActsAlike (LexPairWith Fr look) where
  yyerror m h := ⟨h.pair.yyerror hF m, h.val⟩
  count h := ⟨⟨hF.count h.pair.files, h.pair.parsebuf, h.pair.pushback, h.pair.symhead⟩, h.val⟩
  push {s t} nfile h := by
    have hopen : LexPair Fr { s with file := nfile, prev := s.file :: s.prev }
        { t with file := nfile, prev := t.file :: t.prev } :=
      ⟨hA.push nfile h.pair.files, h.pair.parsebuf, h.pair.pushback, h.pair.symhead⟩
    refine ⟨hopen.lungetc _, ?_⟩
    rw [lungetc_val, lungetc_val]
    exact h.val
  varset nam val h := ⟨⟨h.pair.files, h.pair.parsebuf, h.pair.pushback,
    congrArg (symset nam val false) h.pair.symhead⟩, h.val⟩

theorem clamp_valued {a : Token} (h : some a.clamp = some .string ∨ some a.clamp = some .number) :
    a = .string ∨ a = .number := by
  cases a <;> simp_all [Token.clamp]

/-- The next token in two parsers. -/
theorem Paired.fetch (hF : FilesSim Bad Fr) {look : Option Token} {y z : Yy}
    (h : Paired (LexPairWith Fr look) y z) (hgood : ¬Bad (yylex y.lex).2) :
    ((client fs').lex z).1 = ((client fs).lex y).1 ∧
      Paired (LexPairWith Fr (some ((client fs).lex y).1)) ((client fs).lex y).2
        ((client fs').lex z).2 := by
  obtain ⟨hsame, ⟨hlex, -⟩⟩ := h
  obtain ⟨htoken, hpair, hval⟩ := hlex.yylex hF hgood
  have hafter := congrArg (Yy.withLex · (yylex z.lex).2) hsame
  exact ⟨congrArg Token.clamp htoken, hafter, hpair, fun hlook => hval (clamp_valued hlook)⟩

theorem keepsAbreast_paired (hF : FilesSim Bad Fr) (hA : FilesActs Fr) :
    KeepsAbreast tables (client fs) (client fs') Late SameValue
      (fun look => Paired (LexPairWith Fr look)) (Proceeds Bad fs fs') where
  flags := alikeFlags_late
  lex p q hP hcalls hm := hm.client.fetch hF (hP.good hcalls)
  shift st a st' x z hshift h hv := h.lex.val (by simpa using shift_valued hshift hv)
  shiftError st st' look x z hshift _ hv := absurd hv (shiftError_not_valued hshift)
  forget look x z h := ⟨h.same, h.lex.pair, by simp⟩
  action p q n hP hred hm :=
    client_action_paired (actsAlike_lexPairWith hF hA p.look) hm.client hP.path hm.stack
      hred.reduces fun hn => hP.opens (hn ▸ hred)
  syntaxError look x z h := ⟨by rw [h.same]; rfl, h.lex.pair.yyerror hF _, h.lex.val⟩
  reportsFirst p q hP hm hp hq := by
    have hpair := hm.client.lex.pair
    exact ⟨hm.client.same, ⟨hA.countFirst hpair.files (hP.second.errors hq), hpair.parsebuf,
      hpair.pushback, hpair.symhead⟩, hm.client.lex.val⟩
  reportsSecond p q hP hm hp hq := by
    have hpair := hm.client.lex.pair
    exact ⟨by rw [hm.client.same]; rfl, ⟨hA.countSecond hpair.files (hP.first.errors hp),
      hpair.parsebuf, hpair.pushback, hpair.symhead⟩, hm.client.lex.val⟩
  overflow look x z h := ⟨by rw [h.same]; rfl, h.lex.pair.yyerror hF _, h.lex.val⟩

end Abreast

/-! ## Runs -/

/-- Two parsers that are abreast, with what is known of each of them. -/
structure Together (Fr : List File → List File → Prop) (p q : State Token Val Yy) : Prop where
  first : Flagged p
  second : Flagged q
  path : Path Edge p.stack
  abreast : Abreast Late SameValue (fun look => Paired (LexPairWith Fr look)) p q

/-- The same files can be included in both. -/
def SameIncludes (fs fs' : FileSystem) : Prop :=
  ∀ files name, files ≠ [] → pushfile fs' files name true = pushfile fs files name true

theorem sameOpens_of_length {fs fs' : FileSystem} (hfs : SameIncludes fs fs') {s t : Lex}
    (hlen : t.files.length = s.files.length) : SameOpens fs fs' s t := fun name =>
  (hfs t.files name (List.cons_ne_nil _ _)).trans <|
    pushfile_of_room (.inr ⟨List.cons_ne_nil _ _, List.cons_ne_nil _ _⟩) hlen.ge
      fun _ _ hlt => hlen.symm ▸ hlt

section Runs

variable {Bad : Lex → Prop} {Fr : List File → List File → Prop} {fs fs' : FileSystem}
  {p q : State Token Val Yy}

theorem Together.step (hF : FilesSim Bad Fr) (hA : FilesActs Fr) (h : Together Fr p q)
    (hgood : Calls tables p → ¬Bad (yylex p.client.lex).2)
    (hopens : Reducing tables p 15 → SameOpens fs fs' p.client.lex q.client.lex) :
    Next.Relates (Together Fr) (fun look => Paired (LexPairWith Fr look))
      (step tables (client fs) p) (step tables (client fs') q) := by
  have hstep := (keepsAbreast_paired hF hA).step ⟨h.first, h.second, h.path, hgood, hopens⟩ h.abreast
  cases hp : Yacc.step tables (client fs) p with
  | run p' =>
      cases hq : Yacc.step tables (client fs') q with
      | run q' =>
          rw [hp, hq] at hstep
          cases hstep with
          | run hm =>
              have hreach : Reaches tables (client fs) p p' := .single hp
              exact .run ⟨h.first.step hp, h.second.step hq, hreach.path (sound Val) h.path, hm⟩
      | done status y =>
          rw [hp, hq] at hstep
          cases hstep
  | done status x =>
      rw [hp] at hstep
      generalize Yacc.step tables (client fs') q = next at hstep
      cases hstep with
      | done _ hR => exact .done _ hR

/-- The second parser follows the first one as long as this is not in a bad state. -/
theorem Together.reaches (hF : FilesSim Bad Fr) (hA : FilesActs Fr) (hfs : SameIncludes fs fs')
    (hkeeps : (client fs).Keeps fun y => Bad y.lex)
    (hlen : ∀ {files files'}, Fr files files' → files'.length = files.length)
    (h : Together Fr p q) {p' : State Token Val Yy} (hreach : Reaches tables (client fs) p p')
    (hgood : ¬Bad p'.client.lex) :
    ∃ q', Reaches tables (client fs') q q' ∧ Together Fr p' q' := by
  induction hreach with
  | refl => exact ⟨q, .refl, h⟩
  | @tail r r' hr hstep ih =>
      have hbefore : ¬Bad r.client.lex := by
        intro hbad
        have hafter := hkeeps.step (t := tables) hbad
        rw [hstep] at hafter
        exact hgood hafter
      obtain ⟨q', hq', htogether⟩ := ih hbefore
      have hnext := @Together.step Bad Fr fs fs' r q' hF hA htogether
        (fun hcalls => by
          rw [step_of_calls hcalls] at hstep
          cases hstep
          exact hgood)
        (fun _ => sameOpens_of_length hfs (hlen htogether.abreast.client.lex.pair.files))
      rw [hstep] at hnext
      cases hq : Yacc.step tables (client fs') q' with
      | done status y =>
          rw [hq] at hnext
          cases hnext
      | run q'' =>
          rw [hq] at hnext
          cases hnext with
          | run hm => exact ⟨q'', hq'.tail hq, hm⟩

end Runs

end Ifconfigd.Parse
