import Ifconfigd.Parse.Lines

/-!
# The line of a token

`yyerror` writes `yylval.lineno`, which `yylex` sets to the line of the file when it has
read the first character of a token. Joining a continued line sets it again. Here the place
of a token in the configuration file is compared with it, for one call of `yylex`.
-/

namespace Ifconfigd.Parse

open CLib Yacc

/-! ## The place of a token -/

/-- The state in which `yylex` comes to its beginning for the last time, after the macros it
expands. -/
def lastTop (s : Lex) : Lex :=
  if _h : StartsMacro s then
    match _hname : macroName [] (lexStart s).2 with
    | .done name s' =>
        match symget (CStr.read name) s' with
        | some val => lastTop { s' with parsebuf := some ⟨val, 0⟩ }
        | none => s
    | _ => s
  else s
termination_by s.inputSize
decreasing_by
  have hstart := lexStart_inputSize (by rw [_h.1]; decide) _h.2
  have hname := macroName_inputSize _hname _h.2
  exact Nat.lt_of_le_of_lt hname hstart

/-- The first character of the token, and the state after it was read. -/
def tokenStart (s : Lex) : Int × Lex := lexStart (lastTop s)

/-- The bytes from the token on. A character of a macro text is not in the file. -/
def fromToken (r : Int × Lex) : List Byte :=
  if r.1 = eof ∨ r.2.parsebuf ≠ none then r.2.pushback ++ r.2.file.rest
  else toByte r.1 :: (r.2.pushback ++ r.2.file.rest)

/-- What `yylex` does after the first character of a token, from its last beginning on. -/
def tokenOps (s : Lex) : List LexOp :=
  if StartsMacro s then
    macroNameOps 0 (lexStart s).2 ++
      match macroName [] (lexStart s).2 with
      | .eof _ => []
      | .tooLong s' => lexErrorOps .stringTooLong s'
      | .done name s' => lexErrorOps (.macroNotDefined (CStr.read name)) s'
  else lexTokenOps (lexStart s).1 (lexStart s).2

theorem yylex_lastTop (s : Lex) : yylex (lastTop s) = yylex s := by
  fun_induction lastTop s with
  | case1 s h name s' hname val hsym ih =>
      rw [ih, yylex_of_expansion h hname hsym]
  | case2 => rfl
  | case3 => rfl
  | case4 => rfl

/-- No macro is expanded there any more. -/
theorem lastTop_last (s : Lex) {name : List Byte} {s' : Lex} (h : StartsMacro (lastTop s))
    (hname : macroName [] (lexStart (lastTop s)).2 = .done name s') :
    symget (CStr.read name) s' = none := by
  fun_induction lastTop s with
  | case1 s _ _ _ _ _ _ ih => exact ih h hname
  | case2 s hs name' t hname' hsym =>
      rw [hname'] at hname
      cases hname
      exact hsym
  | case3 s hs hnot => exact absurd hname (hnot name s')
  | case4 s hs => exact absurd h hs

/-! ## Continued lines -/

/-- How many continued lines are joined before the next character of a text. -/
def joinedLines : List Byte → Nat
  | 92 :: 10 :: rest => joinedLines rest + 1
  | _ => 0

/-- How many continued lines `lgetc(0)` joins. -/
def Lex.joins (s : Lex) : Nat :=
  if s.macroRest = [] ∧ s.pushback = [] then joinedLines s.file.rest else 0

/-- A continued line is joined only while there are `n` newlines left in the file. -/
def LexOp.JoinsAt (n : Nat) : LexOp → Prop
  | .lgetc quotec s => quotec = 0 → s.joins = 0 ∨ s.joins = 1 ∧ s.file.rest.count 10 = n
  | _ => True

instance (n : Nat) : DecidablePred (LexOp.JoinsAt n)
  | .lgetc quotec s => inferInstanceAs (Decidable
      (quotec = 0 → s.joins = 0 ∨ s.joins = 1 ∧ s.file.rest.count 10 = n))
  | .lungetc _ _ => inferInstanceAs (Decidable True)
  | .buf _ => inferInstanceAs (Decidable True)

def LexOp.joins : LexOp → Nat
  | .lgetc quotec s => if quotec = 0 then s.joins else 0
  | _ => 0

theorem joinLines_lineno_eq (rest : List Byte) (fl vl : Nat) :
    (joinLines rest fl vl).2.2.1 = fl + joinedLines rest ∧
      (joinLines rest fl vl).2.2.2 =
        if joinedLines rest = 0 then vl else fl + joinedLines rest - 1 := by
  fun_induction joinLines rest fl vl with
  | case1 => exact ⟨rfl, rfl⟩
  | case3 => simp [joinedLines]
  | case2 b rest fl vl hb =>
      have hnone : joinedLines (b :: rest) = 0 := by
        rw [joinedLines.eq_def]
        split
        · next heq => exact absurd (List.cons.inj heq).1 hb
        · rfl
      rw [hnone]
      exact ⟨rfl, rfl⟩
  | case4 b fl vl hb next rest hnext =>
      have hnone : joinedLines (b :: next :: rest) = 0 := by
        rw [joinedLines.eq_def]
        split
        · next heq => exact absurd (List.cons.inj (List.cons.inj heq).2).1 hnext
        · rfl
      rw [hnone]
      exact ⟨rfl, rfl⟩
  | case5 b fl vl hb next rest hnext ih =>
      obtain rfl : b = 92 := not_not.1 hb
      obtain rfl : next = 10 := not_not.1 hnext
      rw [ih.1, ih.2, joinedLines]
      refine ⟨by omega, ?_⟩
      rw [if_neg (Nat.succ_ne_zero _)]
      split <;> omega

section Root

variable {s : Lex}

/-- Reading on in the last of the open files, outside quotes. -/
theorem lgetc_zero_of_root (h : s.Bounded) (hprev : s.prev = []) :
    (lgetc 0 s).2.prev = [] ∧ (lgetc 0 s).2.diags = s.diags ∧
      (lgetc 0 s).2.file.lineno = s.file.lineno + s.joins ∧
      (lgetc 0 s).2.lineno = if s.joins = 0 then s.lineno else s.file.lineno + s.joins - 1 := by
  have hinput (s' : Lex) (hexpands : s.macroRest = [])
      (hs' : s'.file = s.file ∧ s'.prev = s.prev ∧ s'.pushback = s.pushback ∧
        s'.lineno = s.lineno ∧ s'.diags = s.diags) :
      (lgetcInput 0 s').2.prev = [] ∧ (lgetcInput 0 s').2.diags = s.diags ∧
        (lgetcInput 0 s').2.file.lineno = s.file.lineno + s.joins ∧
        (lgetcInput 0 s').2.lineno =
          if s.joins = 0 then s.lineno else s.file.lineno + s.joins - 1 := by
    obtain ⟨hfile, hprev', hpush, hlineno, hdiags⟩ := hs'
    rw [hprev] at hprev'
    rw [Lex.joins, ← hpush]
    simp only [lgetcInput]
    split
    · next b bs hcons =>
        rw [if_neg fun hand => by rw [hcons] at hand; cases hand.2]
        exact ⟨hprev', hdiags, by rw [hfile]; rfl, hlineno⟩
    · next hnil =>
        obtain ⟨hfl, hvl⟩ := joinLines_lineno_eq s.file.rest s.file.lineno s.lineno
        rw [if_neg (by simp : ¬(0 : Int) ≠ 0), if_pos ⟨hexpands, hnil⟩]
        simp only [getcJoined, hfile, hlineno]
        split
        · exact ⟨hprev', hdiags, hfl, hvl⟩
        · rw [hprev', popWhileEof]
          exact ⟨rfl, hdiags, hfl, hvl⟩
  cases hbuf : s.parsebuf with
  | none =>
      rw [show lgetc 0 s = lgetcInput 0 s by simp [lgetc, hbuf]]
      exact hinput s (macroRest_of_none hbuf) ⟨rfl, rfl, rfl, rfl, rfl⟩
  | some buf =>
      obtain ⟨text, i⟩ := buf
      have hi := (h.parsebuf text i hbuf).1
      have hrest := macroRest_of_some hbuf
      cases hb : text.bytes[i.toNat]? with
      | none =>
          rw [show lgetc 0 s = lgetcInput 0 { s with parsebuf := none } by simp [lgetc, hbuf, hi, hb]]
          refine hinput _ ?_ ⟨rfl, rfl, rfl, rfl, rfl⟩
          rw [hrest]
          exact List.drop_eq_nil_of_le (List.getElem?_eq_none_iff.1 hb)
      | some b =>
          have hjoins : s.joins = 0 := by
            rw [Lex.joins, if_neg fun hand => ?_]
            rw [hrest, List.drop_eq_nil_iff] at hand
            exact absurd (List.getElem?_eq_some_iff.1 hb).1 (Nat.not_lt.2 hand.1)
          rw [show lgetc 0 s = (schar b, { s with parsebuf := some ⟨text, i + 1⟩ }) by
            simp [lgetc, hbuf, hi, hb], hjoins]
          exact ⟨hprev, rfl, rfl, rfl⟩

/-- Reading on inside quotes: the end of the file is reported. -/
theorem lgetc_quote_of_root {quotec : Int} (hq : quotec ≠ 0) (hprev : s.prev = []) :
    (lgetc quotec s).2.prev = [] ∧ (lgetc quotec s).2.lineno = s.lineno ∧
      ((lgetc quotec s).2.diags = s.diags ∨
        (lgetc quotec s).2.diags = ⟨s.file.name, s.lineno, .quotedEof⟩ :: s.diags) := by
  simp only [lgetc, lgetcInput, getcQuoted, popfile, yyerror, hprev]
  grind

end Root

/-! ## Messages of a token -/

/-- The messages reported since `s` name the line that `yylval` had then and still has. -/
structure Reporting (s s' : Lex) : Prop where
  lineno : s'.lineno = s.lineno
  diags : ∃ ds, s'.diags = ds ++ s.diags ∧ ∀ d ∈ ds, d.lineno = s.lineno

namespace Reporting

variable {s s' s'' : Lex}

theorem same (hlineno : s'.lineno = s.lineno) (hdiags : s'.diags = s.diags) : Reporting s s' :=
  ⟨hlineno, [], hdiags, nofun⟩

theorem refl (s : Lex) : Reporting s s := same rfl rfl

theorem trans (h : Reporting s s') (h' : Reporting s' s'') : Reporting s s'' := by
  obtain ⟨hlineno, ds, hds, hall⟩ := h
  obtain ⟨hlineno', ds', hds', hall'⟩ := h'
  refine ⟨hlineno'.trans hlineno, ds' ++ ds, by rw [hds', hds, List.append_assoc], fun d hd => ?_⟩
  rcases List.mem_append.1 hd with hd | hd
  · exact (hall' d hd).trans hlineno
  · exact hall d hd

theorem report (m : Message) (s : Lex) : Reporting s (yyerror m s) :=
  ⟨rfl, [⟨s.file.name, s.lineno, m⟩], rfl, by simp⟩

/-- What was added is determined. -/
theorem mem {ds : List Diag} (h : Reporting s s') (hds : s'.diags = ds ++ s.diags) {d : Diag}
    (hd : d ∈ ds) : d.lineno = s.lineno := by
  obtain ⟨-, ds', hds', hall⟩ := h
  rw [hds'] at hds
  exact hall d (List.append_cancel_right hds ▸ hd)

end Reporting

/-- The lexer is in the configuration file, on a token that began in `s₀` at a line with `n`
newlines behind it. -/
structure OnLine (s₀ : Lex) (n k : Nat) (s : Lex) : Prop where
  root : s.prev = []
  reporting : Reporting s₀ s
  balance : Balance (s₀.lineno + n) k s

theorem OnLine.lgetc {s₀ s : Lex} {n : Nat} {quotec : Int} (hq : IsQuotec quotec)
    (hok : (LexOp.lgetc quotec s).InBounds ∧ (LexOp.lgetc quotec s).JoinsAt n) (h : OnLine s₀ n 0 s) :
    OnLine s₀ n (newlines (lgetc quotec s).1) (lgetc quotec s).2 := by
  have hbounded := hok.1.states s List.mem_cons_self
  have hbalance := (balance_lines _).lgetc hq hok.1 h.balance
  by_cases hzero : quotec = 0
  · subst hzero
    obtain ⟨hprev, hdiags, -, hlineno⟩ := lgetc_zero_of_root hbounded h.root
    refine ⟨hprev, h.reporting.trans (.same ?_ hdiags), hbalance⟩
    rw [hlineno]
    rcases hok.2 rfl with hjoins | ⟨hjoins, hcount⟩
    · rw [hjoins, if_pos rfl]
    · have hpush : s.pushback = [] := by
        rw [Lex.joins] at hjoins
        split at hjoins
        · next hand => exact hand.2
        · cases hjoins
      have hsum := h.balance.sum
      rw [root_of_nil h.root, rootAhead_of_nil h.root, hpush, List.nil_append, hcount] at hsum
      rw [hjoins, if_neg Nat.one_ne_zero, h.reporting.lineno]
      simp only [ite_self] at hsum
      omega
  · obtain ⟨hprev, hlineno, hdiags⟩ := lgetc_quote_of_root hzero h.root
    refine ⟨hprev, h.reporting.trans ⟨hlineno, ?_⟩, hbalance⟩
    rcases hdiags with hdiags | hdiags
    · exact ⟨[], hdiags, nofun⟩
    · exact ⟨[_], hdiags, by simp⟩

theorem lungetc_reporting (c : Int) (s : Lex) : Reporting s (lungetc c s) := by
  obtain ⟨hlineno, hdiags⟩ : (lungetc c s).lineno = s.lineno ∧ (lungetc c s).diags = s.diags :=
    lungetc_holds (P := fun s' => s'.lineno = s.lineno ∧ s'.diags = s.diags) (fun _ _ h => h)
      (fun _ _ h => h) ⟨rfl, rfl⟩ c
  exact .same hlineno hdiags

theorem onLine_lines (s₀ : Lex) (n : Nat) :
    LexLines (fun op => op.InBounds ∧ op.JoinsAt n) (OnLine s₀ n) where
  lgetc hq hok h := h.lgetc hq hok
  unget {quotec s} hq hok hok' h := by
    have hget := h.lgetc hq hok
    exact ⟨(lungetc_file _ _).2.trans hget.root, hget.reporting.trans (lungetc_reporting _ _),
      (balance_lines _).unget hq hok.1 hok'.1 h.balance⟩
  lungetc {c s} hc hok h := ⟨(lungetc_file c s).2.trans h.root,
    h.reporting.trans (lungetc_reporting c s), (balance_lines _).lungetc hc hok.1 h.balance⟩
  nextLine {s} h := ⟨h.root, h.reporting.trans (.same rfl rfl), (balance_lines _).nextLine h.balance⟩
  yyerror {m s} h := ⟨h.root, h.reporting.trans (.report m s), (balance_lines _).yyerror h.balance⟩
  endMacro h := ⟨h.root, h.reporting.trans (.same rfl rfl), (balance_lines _).endMacro h.balance⟩
  val h := ⟨h.root, h.reporting.trans (.same rfl rfl), (balance_lines _).val h.balance⟩

/-! ## Up to the first character of a token -/

section Start

variable {text : List Byte} {s : Lex}

/-- What is ahead in the configuration file is an end of its text. -/
theorem lgetc_aligned (hbounded : s.Bounded) (hplain : PlainMacro s)
    (h : s.rootAhead <:+ text) : (lgetc 0 s).2.rootAhead <:+ text ∧
      ((lgetc 0 s).2.prev = [] → (lgetc 0 s).2.parsebuf = none → (lgetc 0 s).1 ≠ eof →
        toByte (lgetc 0 s).1 :: (lgetc 0 s).2.rootAhead <:+ text) := by
  obtain ⟨w, htakes, hlast⟩ := lgetc_takes (.inl rfl) hbounded hplain
  rw [htakes.ahead] at h
  refine ⟨(List.suffix_append w _).trans h, fun hnil hbuf hne => ?_⟩
  obtain ⟨w', rfl⟩ := hlast rfl hnil hbuf hne
  rw [List.append_assoc, List.singleton_append] at h
  exact (List.suffix_append w' _).trans h

theorem skip_aligned {p : Int → Bool} (hbounded : s.Bounded) (hplain : PlainMacro s)
    (h : s.rootAhead <:+ text) : (skip p s).2.rootAhead <:+ text ∧
      ((skip p s).2.prev = [] → (skip p s).2.parsebuf = none → (skip p s).1 ≠ eof →
        toByte (skip p s).1 :: (skip p s).2.rootAhead <:+ text) := by
  fun_induction skip p s with
  | case1 s hc ih =>
      exact ih (hbounded.lgetc 0) ((loopKeeps_macroText _).lgetc 0 s hplain)
        (lgetc_aligned hbounded hplain h).1
  | case2 s hc => exact lgetc_aligned hbounded hplain h

theorem macroName_aligned {name : List Byte} (hbounded : s.Bounded) (hbuf : s.parsebuf = none)
    (h : s.rootAhead <:+ text) : (macroName name s).state.rootAhead <:+ text := by
  have hplain : PlainMacro s := fun _ _ hsome => by simp [hbuf] at hsome
  fun_induction macroName name s with
  | case1 name s hc | case2 name s hc hlen => exact (lgetc_aligned hbounded hplain h).1
  | case3 name s hc hlen hword ih =>
      exact ih (hbounded.lgetc 0) (lgetc_parsebuf_none hbuf) (lgetc_aligned hbounded hplain h).1
        ((loopKeeps_macroText _).lgetc 0 s hplain)
  | case4 name s hc hlen hword =>
      obtain ⟨hahead, hcons⟩ := lgetc_aligned hbounded hplain h
      obtain ⟨-, hsame | ⟨hnil, hback⟩⟩ := rootAhead_lungetc (lgetc 0 s).1 (lgetc 0 s).2
      · exact hsame ▸ hahead
      · exact hback ▸ hcons hnil (lgetc_parsebuf_none hbuf) hc

/-- What is known of the lexer between tokens. -/
structure Accounted (n : Nat) (text : List Byte) (s : Lex) : Prop where
  bounded : s.Bounded
  table : ∀ sym ∈ s.symhead, 10 ∉ sym.val.bytes
  balance : Balance n 0 s
  aligned : s.rootAhead <:+ text

variable {n : Nat}

/-- The first character of a token, or the `$` of a macro. -/
structure FirstRead (n : Nat) (text : List Byte) (r : Int × Lex) : Prop where
  bounded : r.2.Bounded
  table : ∀ sym ∈ r.2.symhead, 10 ∉ sym.val.bytes
  balance : Balance n (newlines r.1) r.2
  aligned : r.2.rootAhead <:+ text
  first : r.2.prev = [] → r.2.parsebuf = none → r.1 ≠ eof → toByte r.1 :: r.2.rootAhead <:+ text

theorem Accounted.skip (h : Accounted n text s) {p : Int → Bool} (hp : p (ch '\n') = false) :
    FirstRead n text (skip p s) := by
  obtain ⟨hahead, hfirst⟩ := @skip_aligned text s p h.bounded h.balance.plain h.aligned
  refine ⟨((held_tracks 0).skip p h.bounded.account).1.bounded, ?_,
    (balance_lines n).skip hp (skipOps_inBounds p h.bounded) h.balance, hahead, hfirst⟩
  rw [(lexKeeps_symhead s.symhead).skip p rfl]
  exact h.table

theorem Accounted.lexStart (h : Accounted n text s) : FirstRead n text (lexStart s) := by
  have hblank := h.skip (p := isBlank) (by decide)
  simp only [Parse.lexStart]
  split
  · next hhash =>
      have hbalance := hblank.balance
      rw [hhash] at hbalance
      have haccounted : Accounted n text
          { (Parse.skip isBlank s).2 with lineno := (Parse.skip isBlank s).2.file.lineno } :=
        ⟨⟨hblank.bounded.pushback, hblank.bounded.parsebuf⟩, hblank.table,
          hbalance.same rfl rfl rfl rfl rfl, hblank.aligned⟩
      exact haccounted.skip (by simp)
  · exact ⟨⟨hblank.bounded.pushback, hblank.bounded.parsebuf⟩, hblank.table,
      hblank.balance.same rfl rfl rfl rfl rfl, hblank.aligned, hblank.first⟩

/-- The name of a macro is read, and its text is next. -/
theorem Accounted.expand (h : Accounted n text s) (hs : StartsMacro s) {name : List Byte} {s' : Lex}
    {val : CStr} (hname : macroName [] (Parse.lexStart s).2 = .done name s')
    (hsym : symget (CStr.read name) s' = some val) :
    Accounted n text { s' with parsebuf := some ⟨val, 0⟩ } := by
  have hbegun := h.lexStart
  have hbalance := hbegun.balance
  rw [hs.1, newlines_of_ne (by decide)] at hbalance
  have hbounded := hbegun.bounded.macroName []
  have hsymhead := (lexKeeps_symhead (Parse.lexStart s).2.symhead).macroName [] rfl
  have haligned := @macroName_aligned text (Parse.lexStart s).2 [] hbegun.bounded hs.2 hbegun.aligned
  have hlines := (balance_lines n).macroName []
    (macroNameOps_inBounds 0 hbegun.bounded) (by simp [hname]) hbalance
  rw [hname] at hbounded hsymhead haligned hlines
  change s'.symhead = _ at hsymhead
  have htable : ∀ sym ∈ s'.symhead, 10 ∉ sym.val.bytes := by
    rw [hsymhead]
    exact hbegun.table
  refine ⟨hbounded.expand val, htable, ⟨?_, hlines.sum⟩, haligned⟩
  rintro _ _ ⟨⟩
  rw [symget, Option.map_eq_some_iff] at hsym
  obtain ⟨sym, hfind, rfl⟩ := hsym
  exact htable sym (List.mem_of_find?_eq_some hfind)

theorem Accounted.lastTop (h : Accounted n text s) : Accounted n text (lastTop s) := by
  fun_induction Parse.lastTop s with
  | case1 s hs name s' hname val hsym ih => exact ih (h.expand hs hname hsym)
  | case2 => exact h
  | case3 => exact h
  | case4 => exact h

end Start

/-! ## A call of `yylex` -/

/-- The character that makes the name of a macro too long is not a newline. -/
def KeepsNewline (s : Lex) : Prop :=
  match macroName [] (lexStart s).2 with
  | .tooLong _ => StartsMacro s → ∀ op ∈ macroNameOps 0 (lexStart s).2, ¬op.ReadsNewline
  | _ => True

section Yylex

variable {text : List Byte} {n : Nat} {s : Lex}

/-- From the first character of a token on, with no macro to be expanded. -/
theorem LexLines.yylex {Ok : LexOp → Prop} {P : Nat → Lex → Prop} (h : LexLines Ok P)
    (hlast : StartsMacro s → ∀ name s', Parse.macroName [] (lexStart s).2 = .done name s' →
      symget (CStr.read name) s' = none) (hkept : KeepsNewline s)
    (hok : ∀ op ∈ tokenOps s, Ok op) (hc : (lexStart s).1 ≠ ch '\n') (hP : P 0 (lexStart s).2) :
    P 0 (yylex s).2 := by
  rw [tokenOps] at hok
  rw [KeepsNewline] at hkept
  by_cases hstarts : StartsMacro s
  · rw [if_pos hstarts, List.forall_mem_append] at hok
    have hname := h.macroName [] hok.1 (fun s' heq => by rw [heq] at hkept; exact hkept hstarts) hP
    cases heq : Parse.macroName [] (lexStart s).2 with
    | eof s' =>
        rw [heq] at hname
        rw [yylex_of_eof hstarts heq]
        exact hname
    | tooLong s' =>
        rw [heq] at hname hok
        rw [yylex_of_tooLong hstarts heq]
        exact h.lexError hok.2 hname
    | done name s' =>
        rw [heq] at hname hok
        rw [yylex_of_undefined hstarts heq (hlast hstarts name s' heq)]
        exact h.lexError hok.2 hname
  · rw [if_neg hstarts] at hok
    rw [yylex_of_token hstarts]
    exact h.lexToken hc hok hP

theorem tokenOps_inBounds (h : s.Bounded) : ∀ op ∈ tokenOps s, op.InBounds := by
  have hstart := h.lexStart
  have hname := hstart.macroName []
  rw [tokenOps]
  split
  · rw [List.forall_mem_append]
    refine ⟨macroNameOps_inBounds 0 hstart, ?_⟩
    split
    · nofun
    · next heq =>
        rw [heq] at hname
        exact lexErrorOps_inBounds _ hname
    · next heq =>
        rw [heq] at hname
        exact lexErrorOps_inBounds _ hname
  · exact lexTokenOps_inBounds _ hstart

/-- A newline is a token that counts itself. -/
theorem yylex_of_newline (h : (lexStart s).1 = ch '\n') :
    (yylex s).2 = nextLine { (lexStart s).2 with lineno := (lexStart s).2.file.lineno } := by
  have hnot : ¬StartsMacro s := fun hstarts => by
    rw [StartsMacro, h] at hstarts
    exact absurd hstarts.1 (by decide)
  rw [yylex_of_token hnot, h]
  rfl

/-- The account of the configuration file is kept by a call of `yylex`. -/
theorem Accounted.yylex_balance (h : Accounted n text s) (hkept : KeepsNewline (Parse.lastTop s)) :
    Balance n 0 (yylex s).2 := by
  have htop := h.lastTop
  have hbegun := htop.lexStart
  have hbalance := hbegun.balance
  rw [← yylex_lastTop]
  by_cases hc : (Parse.lexStart (Parse.lastTop s)).1 = ch '\n'
  · rw [yylex_of_newline hc]
    rw [hc] at hbalance
    exact (balance_lines n).nextLine (hbalance.same rfl rfl rfl rfl rfl)
  · rw [newlines_of_ne hc] at hbalance
    exact (balance_lines n).yylex (fun hs name s' => lastTop_last s hs) hkept
      (tokenOps_inBounds htop.bounded) hc hbalance

/-- The line of the token, as the file counts it, is that of its place in the text. -/
theorem FirstRead.lineno {r : Int × Lex} (h : FirstRead (1 + text.count 10) text r)
    (hprev : r.2.prev = []) (hnewline : r.1 = ch '\n' → r.2.parsebuf = none)
    (hrange : -128 ≤ r.1 ∧ r.1 < 256) :
    ∃ before, text = before ++ fromToken r ∧ r.2.file.lineno = 1 + before.count 10 := by
  have hsum := h.balance.sum
  rw [root_of_nil hprev, if_pos hprev] at hsum
  rw [fromToken, ← rootAhead_of_nil hprev]
  split
  · next hnone =>
      obtain ⟨before, hbefore⟩ := h.aligned
      have hzero : newlines r.1 = 0 := by
        refine newlines_of_ne fun heq => ?_
        rcases hnone with heof | hbuf
        · exact eof_ne_newline (heof.symm.trans heq)
        · exact hbuf (hnewline heq)
      have hcount := congrArg (List.count 10) hbefore
      rw [List.count_append] at hcount
      exact ⟨before, hbefore.symm, by omega⟩
  · next hsome =>
      rw [not_or, not_not] at hsome
      obtain ⟨before, hbefore⟩ := h.first hprev hsome.2 hsome.1
      have hcount := congrArg (List.count 10) hbefore
      have hone : newlines r.1 = [toByte r.1].count 10 := by
        rw [newlines, List.count_singleton]
        by_cases heq : r.1 = ch '\n'
        · rw [if_pos heq, heq]
          rfl
        · have hbyte : toByte r.1 ≠ 10 := fun hbyte =>
            heq (eq_newline_of_toByte hrange.1 hrange.2 hbyte)
          rw [if_neg heq, if_neg (by simpa using hbyte)]
      rw [List.count_append, ← List.singleton_append, List.count_append] at hcount
      exact ⟨before, hbefore.symm, by omega⟩

/-- A comment that the end of the file ends was begun in the configuration file, and no
continued line is joined in it. -/
def CommentOnLine (s : Lex) : Prop :=
  (skip isBlank s).1 = ch '#' → (skip isBlank s).2.prev = [] ∧
    ∀ op ∈ skipOps (· ≠ ch '\n')
      { (skip isBlank s).2 with lineno := (skip isBlank s).2.file.lineno }, op.joins = 0

/-- The conditions on a call of `yylex` for a configuration file with the given text. -/
structure ReadsOk (text : List Byte) (s : Lex) : Prop where
  /-- What was pushed back is what the file has before its rest. -/
  aligned : s.prev = [] → s.pushback ++ s.file.rest <:+ text
  kept : KeepsNewline (lastTop s)
  /-- After the first character of the token a continued line is joined only on its line. -/
  joined : (tokenStart s).2.prev = [] → ∀ op ∈ tokenOps (lastTop s),
    op.JoinsAt (((tokenStart s).2.pushback ++ (tokenStart s).2.file.rest).count 10)
  comment : (tokenStart s).2.prev = [] → (tokenStart s).1 = eof → CommentOnLine (lastTop s)

instance (s : Lex) : Decidable (CommentOnLine s) := inferInstanceAs (Decidable (_ → _ ∧ _))

instance (s : Lex) : Decidable (KeepsNewline s) := by
  unfold KeepsNewline
  split <;> infer_instance

instance (text : List Byte) (s : Lex) : Decidable (ReadsOk text s) :=
  decidable_of_iff
    ((s.prev = [] → s.pushback ++ s.file.rest <:+ text) ∧ KeepsNewline (lastTop s) ∧
      ((tokenStart s).2.prev = [] → ∀ op ∈ tokenOps (lastTop s),
        op.JoinsAt (((tokenStart s).2.pushback ++ (tokenStart s).2.file.rest).count 10)) ∧
      ((tokenStart s).2.prev = [] → (tokenStart s).1 = eof → CommentOnLine (lastTop s)))
    ⟨fun ⟨haligned, hkept, hjoined, hcomment⟩ => ⟨haligned, hkept, hjoined, hcomment⟩,
      fun h => ⟨h.aligned, h.kept, h.joined, h.comment⟩⟩

theorem skip_stops (p : Int → Bool) (s : Lex) : (skip p s).1 = eof ∨ p (skip p s).1 = false := by
  fun_induction skip p s with
  | case1 s hc ih => exact ih
  | case2 s hc =>
      rw [not_and_or, not_not, Bool.not_eq_true] at hc
      exact hc

theorem skip_lineno_of_root {p : Int → Bool} (h : s.Bounded) (hprev : s.prev = [])
    (hjoins : ∀ op ∈ skipOps p s, op.joins = 0) (hlineno : s.lineno = s.file.lineno) :
    (skip p s).2.lineno = (skip p s).2.file.lineno := by
  have hget (s : Lex) (h : s.Bounded) (hprev : s.prev = []) (hjoins : (LexOp.lgetc 0 s).joins = 0)
      (hlineno : s.lineno = s.file.lineno) : (lgetc 0 s).2.lineno = (lgetc 0 s).2.file.lineno := by
    obtain ⟨-, -, hfile, hval⟩ := lgetc_zero_of_root h hprev
    rw [LexOp.joins, if_pos rfl] at hjoins
    rw [hfile, hval, hjoins, if_pos rfl, hlineno, Nat.add_zero]
  fun_induction skip p s with
  | case1 s hc ih =>
      rw [skipOps.eq_def, dif_pos hc, List.forall_mem_cons] at hjoins
      exact ih (h.lgetc 0) (lgetc_zero_of_root h hprev).1 hjoins.2
        (hget s h hprev hjoins.1 hlineno)
  | case2 s hc =>
      rw [skipOps.eq_def, dif_neg hc, List.forall_mem_singleton] at hjoins
      exact hget s h hprev hjoins hlineno

/-- `yylval` has the line of the file after the first character of a token. -/
theorem lexStart_lineno_of_root (h : s.Bounded) (hc : (lexStart s).1 ≠ ch '\n')
    (hcomment : (lexStart s).1 = eof → CommentOnLine s) :
    (lexStart s).2.lineno = (lexStart s).2.file.lineno := by
  have hbounded := ((held_tracks 0).skip isBlank h.account).1.bounded
  simp only [lexStart] at hc hcomment ⊢
  split at hc
  · next hhash =>
      rw [if_pos hhash] at hcomment ⊢
      have heof := (skip_stops (· ≠ ch '\n') _).resolve_right fun hstop =>
        hc (by simpa using hstop)
      obtain ⟨hprev, hjoins⟩ := hcomment heof hhash
      exact skip_lineno_of_root ⟨hbounded.pushback, hbounded.parsebuf⟩ hprev hjoins rfl
  · next hhash => rw [if_neg hhash]

theorem lexStart_diags (s : Lex) : (lexStart s).2.diags = s.diags := by
  simp only [lexStart]
  split
  · exact (skip_diags _ _).trans (skip_diags isBlank s)
  · exact skip_diags isBlank s

theorem macroName_diags (name : List Byte) (s : Lex) : (macroName name s).state.diags = s.diags := by
  fun_induction macroName name s with
  | case1 | case2 => exact lgetc_diags _
  | case3 name s hc hlen hword ih => exact ih.trans (lgetc_diags s)
  | case4 name s hc hlen hword => exact (lungetc_diags _ _).trans (lgetc_diags s)

theorem lastTop_diags (s : Lex) : (lastTop s).diags = s.diags := by
  fun_induction lastTop s with
  | case1 s hs name s' hname val hsym ih =>
      have hkept := macroName_diags [] (lexStart s).2
      rw [hname] at hkept
      exact ih.trans (hkept.trans (lexStart_diags s))
  | case2 => rfl
  | case3 => rfl
  | case4 => rfl

/-- A token of the configuration file: `yylval` has its line, and so has every message that
was reported for it. -/
theorem Accounted.token_line (h : Accounted (1 + text.count 10) text s) (hok : ReadsOk text s)
    (hprev : (tokenStart s).2.prev = []) :
    ∃ before, text = before ++ fromToken (tokenStart s) ∧
      (yylex s).2.lineno = 1 + before.count 10 ∧
      ∃ ds, (yylex s).2.diags = ds ++ s.diags ∧ ∀ d ∈ ds, d.lineno = 1 + before.count 10 := by
  rw [tokenStart] at hprev ⊢
  have htop := h.lastTop
  have hbegun := htop.lexStart
  have hdiags := (lexStart_diags (Parse.lastTop s)).trans (lastTop_diags s)
  obtain ⟨before, hbefore, hline⟩ := hbegun.lineno hprev
    (lexStart_newline htop.bounded htop.balance.plain) (lexStart_range _)
  refine ⟨before, hbefore, ?_⟩
  rw [← yylex_lastTop, ← hline]
  by_cases hc : (Parse.lexStart (Parse.lastTop s)).1 = ch '\n'
  · rw [yylex_of_newline hc]
    exact ⟨rfl, [], hdiags, nofun⟩
  · have hlineno := lexStart_lineno_of_root htop.bounded hc (hok.comment hprev)
    have hbalance := hbegun.balance
    have hsum := hbalance.sum
    rw [newlines_of_ne hc] at hbalance hsum
    rw [root_of_nil hprev, rootAhead_of_nil hprev, ite_self, ← hlineno] at hsum
    rw [← hsum] at hbalance
    have honLine := (onLine_lines (Parse.lexStart (Parse.lastTop s)).2 _).yylex
      (fun hs name s' => lastTop_last s hs) hok.kept
      (fun op hop => ⟨tokenOps_inBounds htop.bounded op hop, hok.joined hprev op hop⟩) hc
      ⟨hprev, .refl _, hbalance⟩
    obtain ⟨hkept, ds, hds, hall⟩ := honLine.reporting
    rw [hdiags] at hds
    rw [← hlineno]
    exact ⟨hkept, ds, hds, hall⟩

end Yylex

end Ifconfigd.Parse
