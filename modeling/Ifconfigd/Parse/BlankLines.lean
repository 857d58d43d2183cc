import Ifconfigd.Parse.Newlines

/-!
# Blank lines and comments

A line without tokens is a newline to the parser. At the top level the rule
`grammar : grammar '\n'` takes it, and inside a block it is one more newline of a row. So the
parser comes to the same result with and without such lines, where a line begins for it in the
place they are put in: the newline before was read as a token, no included file was left in
the middle of a line, and the stack holds the newlines of the row.
-/

namespace Ifconfigd.Parse

open CLib Yacc

/-! ## Reading a blank line -/

/-- Blanks, perhaps a comment without a backslash, and a newline. -/
def BlankLine (line : List Byte) : Prop :=
  ∃ blanks comment, line = blanks ++ comment ++ [10] ∧ (∀ b ∈ blanks, Blank b) ∧
    (comment = [] ∨ ∃ text, comment = 35 :: text ∧ ∀ b ∈ text, b ≠ 10 ∧ b ≠ 92)

theorem BlankLine.head_ne {line : List Byte} (h : BlankLine line) (more : List Byte) :
    (line ++ more).head? ≠ some 92 := by
  obtain ⟨blanks, comment, rfl, hblanks, hcomment⟩ := h
  cases blanks with
  | cons b blanks =>
      rcases hblanks b List.mem_cons_self with rfl | rfl <;> simp
  | nil => rcases hcomment with rfl | ⟨text, rfl, -⟩ <;> simp

/-- The lexer past a part of its file. -/
def Lex.past (s : Lex) (text : List Byte) (fileLine line : Nat) : Lex :=
  { s with file := { s.file with rest := text, lineno := fileLine }, lineno := line }

section Reads

variable {s : Lex} {b : Byte} {w text : List Byte}

/-- Skipping characters of the file. -/
theorem skip_file {p : Int → Bool} (hbuf : s.parsebuf = none) (hpush : s.pushback = [])
    (hrest : s.file.rest = w ++ b :: text) (hw : ∀ x ∈ w, x ≠ 92 ∧ p (uchar x) = true)
    (hb : b ≠ 92) (hp : p (uchar b) = false) : skip p s = (uchar b, s.withText text) := by
  induction w generalizing s with
  | nil =>
      rw [skip.eq_def, lgetc_of_file hbuf hpush hrest hb, dif_neg (by simp [hp])]
  | cons x w ih =>
      obtain ⟨hx, hpx⟩ := hw x List.mem_cons_self
      rw [skip.eq_def, lgetc_of_file hbuf hpush hrest hx, dif_pos ⟨uchar_ne_eof x, hpx⟩]
      exact @ih (s.withText (w ++ b :: text)) hbuf hpush rfl
        fun y hy => hw y (List.mem_cons_of_mem _ hy)

theorem lexStart_blankLine {line : List Byte} (hline : BlankLine line) (hbuf : s.parsebuf = none)
    (hpush : s.pushback = []) (hrest : s.file.rest = line ++ text) :
    lexStart s = (10, s.past text s.file.lineno s.file.lineno) := by
  obtain ⟨blanks, comment, rfl, hblanks, hcomment⟩ := hline
  have hw : ∀ x ∈ blanks, x ≠ 92 ∧ isBlank (uchar x) = true := by
    intro x hx
    rcases hblanks x hx with rfl | rfl <;> decide
  rcases hcomment with rfl | ⟨comment, rfl, hcomment⟩
  · have hskip := @skip_file s 10 blanks text isBlank hbuf hpush (by simp [hrest]) hw (by decide)
      (by decide)
    simp only [lexStart, hskip]
    rfl
  · have hskip := @skip_file s 35 blanks (comment ++ 10 :: text) isBlank hbuf hpush
      (by simp [hrest]) hw (by decide) (by decide)
    have hskip' := @skip_file (s.past (comment ++ 10 :: text) s.file.lineno s.file.lineno) 10
      comment text (· ≠ ch '\n') hbuf hpush rfl (fun x hx => ?_) (by decide) (by decide)
    · simp only [lexStart, hskip]
      exact hskip'
    · obtain ⟨hx10, hx92⟩ := hcomment x hx
      refine ⟨hx92, decide_eq_true fun heq => hx10 ?_⟩
      rw [← toByte_uchar x, heq]
      rfl

/-- A blank line is a newline to `yylex`. -/
theorem yylex_blankLine {line : List Byte} (hline : BlankLine line) (hbuf : s.parsebuf = none)
    (hpush : s.pushback = []) (hrest : s.file.rest = line ++ text) :
    yylex s = (newline, s.past text (s.file.lineno + 1) s.file.lineno) := by
  have hstart := lexStart_blankLine hline hbuf hpush hrest
  have hmacro : ¬StartsMacro s := by
    rw [StartsMacro, hstart]
    exact fun h => absurd (show (10 : Int) = ch '$' from h.1) (by decide)
  rw [yylex_of_token hmacro, hstart]
  rfl

end Reads

/-! ## Where a line begins -/

/-- The last of the open files, with the errors of all of them. -/
def settle : File → List File → File
  | f, [] => f
  | f, p :: ps => settle { p with errors := p.errors + f.errors } ps

/-- The lexer once the files above the last one were left. -/
def Lex.settled (s : Lex) : Lex := { s with file := settle s.file s.prev, prev := [] }

/-- Nothing was read of the line that `text` begins with, and nothing is left to be read before
it. When a file was left the first character is read in another way: a backslash there is no
continuation. -/
structure LineStart (text : List Byte) (s : Lex) : Prop where
  parsebuf : s.parsebuf = none
  pushback : s.pushback = []
  above : ∀ f ∈ s.files.dropLast, f.rest = []
  root : s.root.rest = text
  slash : s.prev ≠ [] → text.head? ≠ some 92

theorem settle_rest (f : File) (prev : List File) :
    (settle f prev).rest = (rootFile f prev).rest := by
  induction prev generalizing f with
  | nil => rfl
  | cons p ps ih =>
      rw [settle, ih, rootFile_cons]
      cases ps with
      | nil => rfl
      | cons p' ps => rw [rootFile_cons, rootFile_cons]

theorem popWhileEof_settle {f : File} {prev : List File} (hprev : prev ≠ [])
    (habove : ∀ g ∈ prev.dropLast, g.rest = []) {b : Byte} {text : List Byte}
    (hroot : (rootFile f prev).rest = b :: text) :
    popWhileEof f prev = (uchar b, { settle f prev with rest := text }, []) := by
  induction prev generalizing f with
  | nil => exact absurd rfl hprev
  | cons p ps ih =>
      cases ps with
      | nil =>
          have hrest : p.rest = b :: text := hroot
          simp only [popWhileEof, hrest, settle]
      | cons p' ps =>
          have hrest : p.rest = [] := habove p List.mem_cons_self
          rw [rootFile_cons] at hroot
          have hpop := @ih { p with errors := p.errors + f.errors } (List.cons_ne_nil _ _)
            (fun g hg => habove g (List.mem_cons_of_mem _ hg)) hroot
          simp only [popWhileEof, hrest, settle] at hpop ⊢
          exact hpop

section LineStart

variable {s : Lex} {text : List Byte}

theorem LineStart.settled_rest (h : LineStart text s) : s.settled.file.rest = text :=
  (settle_rest s.file s.prev).trans h.root

/-- The files above the last one are left when the line is read. -/
theorem LineStart.lgetc (h : LineStart text s) (htext : text ≠ []) :
    lgetc 0 s = Parse.lgetc 0 s.settled := by
  obtain ⟨b, rest, rfl⟩ := List.exists_cons_of_ne_nil htext
  cases hprev : s.prev with
  | nil =>
      have hsame : s.settled = s := by rw [Lex.settled, hprev, settle, ← hprev]
      rw [hsame]
  | cons p ps =>
      have hne : s.prev ≠ [] := by simp [hprev]
      have hb : b ≠ 92 := by simpa using h.slash hne
      have hempty : s.file.rest = [] := h.above s.file (by simp [Lex.files, hprev])
      have habove : ∀ g ∈ s.prev.dropLast, g.rest = [] := fun g hg =>
        h.above g (by simpa [Lex.files, hprev] using .inr (by simpa [hprev] using hg))
      have hpop := popWhileEof_settle hne habove (show (rootFile s.file s.prev).rest = b :: rest
        from h.root)
      rw [@lgetc_of_file s.settled b rest h.parsebuf h.pushback h.settled_rest hb]
      obtain ⟨⟨name, _, lineno, errors⟩, prev, _, _, symhead, vlineno, val, diags⟩ := s
      obtain rfl := h.parsebuf
      obtain rfl := h.pushback
      obtain rfl := hempty
      simp only [Parse.lgetc, lgetcInput, getcJoined, joinLines] at hpop ⊢
      simp only [hpop]
      rfl

theorem LineStart.yylex (h : LineStart text s) (htext : text ≠ []) :
    yylex s = Parse.yylex s.settled :=
  yylex_of_lexStart (by rw [lexStart, lexStart, skip_congr (h.lgetc htext)])

end LineStart

/-! ## The same place in both texts -/

section Settled

variable {after tail : List Byte}

variable {f f' : File} {prev prev' : List File}

theorem Grafted.cons (h : Above (Grafted after tail) (f :: prev) (f' :: prev')) :
    (prev = [] ∧ prev' = [] ∧ (f'.errors = 0 ↔ f.errors = 0) ∧
      ∃ ahead, f.rest = ahead ++ after ∧ f'.rest = ahead ++ tail) ∨
    ∃ p ps p' ps', prev = p :: ps ∧ prev' = p' :: ps' ∧ SameRest f f' ∧
      Above (Grafted after tail) (p :: ps) (p' :: ps') := by
  cases h with
  | base h =>
      cases h with
      | intro ahead hrest hrest' herrors => exact .inl ⟨rfl, rfl, herrors, ahead, hrest, hrest'⟩
  | file hf hs =>
      cases hs with
      | base hs =>
          cases hs with
          | intro ahead hrest hrest' herrors =>
              exact .inr ⟨_, _, _, _, rfl, rfl, hf, .base (.intro ahead hrest hrest' herrors)⟩
      | file hg hs => exact .inr ⟨_, _, _, _, rfl, rfl, hf, .file hg hs⟩

/-- What is left of the last file. -/
theorem Grafted.root (h : Above (Grafted after tail) (f :: prev) (f' :: prev'))
    (hroot : (rootFile f prev).rest = after) : (rootFile f' prev').rest = tail := by
  induction prev generalizing f f' prev' with
  | nil =>
      rcases Grafted.cons h with ⟨-, rfl, -, ahead, hrest, hrest'⟩ | ⟨_, _, _, _, hnil, -⟩
      · have hnil : ahead = [] := by simpa using hrest.symm.trans hroot
        subst hnil
        exact hrest'
      · cases hnil
  | cons p ps ih =>
      rcases Grafted.cons h with ⟨hnil, -⟩ | ⟨_, _, p', ps', hcons, rfl, -, hs⟩
      · cases hnil
      · cases hcons
        rw [rootFile_cons] at hroot ⊢
        exact ih hs hroot

/-- The files above it are at their ends together. -/
theorem Grafted.above (h : Above (Grafted after tail) (f :: prev) (f' :: prev'))
    (habove : ∀ g ∈ (f :: prev).dropLast, g.rest = []) :
    ∀ g ∈ (f' :: prev').dropLast, g.rest = [] := by
  induction prev generalizing f f' prev' with
  | nil =>
      rcases Grafted.cons h with ⟨-, rfl, -⟩ | ⟨_, _, _, _, hnil, -⟩
      · exact nofun
      · cases hnil
  | cons p ps ih =>
      rcases Grafted.cons h with ⟨hnil, -⟩ | ⟨_, _, p', ps', hcons, rfl, hf, hs⟩
      · cases hnil
      · cases hcons
        rintro g hg
        rw [List.dropLast_cons_of_ne_nil (List.cons_ne_nil p' ps')] at hg
        rw [List.dropLast_cons_of_ne_nil (List.cons_ne_nil p ps)] at habove
        rcases List.mem_cons.1 hg with rfl | hg
        · exact hf.rest.trans (habove f List.mem_cons_self)
        · exact ih hs (fun g hg => habove g (List.mem_cons_of_mem _ hg)) g hg

/-- An error was counted in one of the files of both parsers or of none. -/
theorem Grafted.settle_errors (hafter : after ≠ [])
    (h : Above (Grafted after tail) (f :: prev) (f' :: prev')) :
    (settle f' prev').errors = 0 ↔ (settle f prev).errors = 0 := by
  induction prev generalizing f f' prev' with
  | nil =>
      rcases Grafted.cons h with ⟨-, rfl, herrors, -⟩ | ⟨_, _, _, _, hnil, -⟩
      · exact herrors
      · cases hnil
  | cons p ps ih =>
      rcases Grafted.cons h with ⟨hnil, -⟩ | ⟨_, _, p', ps', hcons, rfl, hf, hs⟩
      · cases hnil
      · cases hcons
        rw [settle, settle]
        exact ih (hs.add (baseSim_grafted hafter) hf.errors)

end Settled

/-! ## Blank lines in the parser -/

section Steps

variable {fs : FileSystem} {p : State Token Val Yy} {line text : List Byte}

/-- The lexer is at the beginning of a line of the only open file. -/
structure AtLine (text : List Byte) (s : Lex) : Prop where
  parsebuf : s.parsebuf = none
  pushback : s.pushback = []
  prev : s.prev = []
  rest : s.file.rest = text

theorem AtLine.past {s : Lex} {text' : List Byte} (h : AtLine text s) (fileLine line : Nat) :
    AtLine text' (s.past text' fileLine line) :=
  ⟨h.parsebuf, h.pushback, h.prev, rfl⟩

theorem LineStart.atLine {s : Lex} (h : LineStart text s) : AtLine text s.settled :=
  ⟨h.parsebuf, h.pushback, rfl, h.settled_rest⟩

theorem past_self {y : Yy} (h : AtLine text y.lex) :
    y.withLex (y.lex.past text y.lex.file.lineno y.lex.lineno) = y := by
  rw [Lex.past, show text = y.lex.file.rest from h.rest.symm]
  rfl

/-- The token of a blank line. -/
theorem fetch_blankLine (hline : BlankLine line) (hcalls : Calls tables p)
    (h : AtLine (line ++ text) p.client.lex) :
    step tables (client fs) p = .run { p with
      look := some newline
      client := p.client.withLex (p.client.lex.past text (p.client.lex.file.lineno + 1)
        p.client.lex.file.lineno) } := by
  have hlex := yylex_blankLine hline h.parsebuf h.pushback h.rest
  have hclient : (client fs).lex p.client = (newline, p.client.withLex (p.client.lex.past text
      (p.client.lex.file.lineno + 1) p.client.lex.file.lineno)) := by
    simp only [client, hlex]
    rfl
  rw [step_of_calls hcalls, fetch, hclient]

/-- At the top level a blank line is a statement of its own. -/
theorem reaches_blankLine_top (hline : BlankLine line) (hlook : p.look = none)
    (hacc : p.accepting = true) {v : Val} (hstack : p.stack = [(1, v)])
    (h : AtLine (line ++ text) p.client.lex) :
    ∃ w l l', Reaches tables (client fs) p ⟨[(1, w)], none, p.errflag - 1, true,
      p.client.withLex (p.client.lex.past text l l')⟩ := by
  have hfetch := @fetch_blankLine fs p line text hline ⟨hlook, .inl hacc⟩ h
  obtain ⟨stack, look, errflag, accepting, y⟩ := p
  subst hlook hacc hstack
  generalize hy : y.withLex (y.lex.past text (y.lex.file.lineno + 1) y.lex.file.lineno) = y'
    at hfetch
  refine ⟨v, y.lex.file.lineno + 1, y.lex.file.lineno, ?_⟩
  rw [hy]
  have hresume : step tables (client fs) ⟨[(1, v)], some newline, errflag, true, y'⟩ =
      .run ⟨[(1, v)], some newline, errflag, false, y'⟩ := rfl
  have hshift : step tables (client fs) ⟨[(1, v)], some newline, errflag, false, y'⟩ =
      .run ⟨[(3, (client fs).lval y'), (1, v)], none, errflag - 1, false, y'⟩ := rfl
  have hreduce : step tables (client fs)
      ⟨[(3, (client fs).lval y'), (1, v)], none, errflag - 1, false, y'⟩ =
      .run ⟨[(1, v)], none, errflag - 1, true, y'⟩ := rfl
  exact .head hfetch (.head hresume (.head hshift (.single hreduce)))

/-- Blank lines at the top level. -/
theorem reaches_blankLines_top {lines : List (List Byte)} (hlines : ∀ l ∈ lines, BlankLine l)
    (hlook : p.look = none) (hacc : p.accepting = true) {v : Val} (hstack : p.stack = [(1, v)])
    (h : AtLine (lines.flatten ++ text) p.client.lex) :
    ∃ w e l l', e ≤ p.errflag ∧ Reaches tables (client fs) p ⟨[(1, w)], none, e, true,
      p.client.withLex (p.client.lex.past text l l')⟩ := by
  induction lines generalizing p v with
  | nil =>
      obtain ⟨stack, look, errflag, accepting, y⟩ := p
      subst hlook hacc hstack
      refine ⟨v, errflag, y.lex.file.lineno, y.lex.lineno, Nat.le_refl _, ?_⟩
      rw [@past_self text y h]
      exact .refl
  | cons line lines ih =>
      rw [List.flatten_cons, List.append_assoc] at h
      obtain ⟨w, l, l', hreach⟩ := @reaches_blankLine_top fs p line (lines.flatten ++ text)
        (hlines line List.mem_cons_self) hlook hacc v hstack h
      obtain ⟨w', e, k, k', he, hreach'⟩ := @ih ⟨[(1, w)], none, p.errflag - 1, true,
          p.client.withLex (p.client.lex.past (lines.flatten ++ text) l l')⟩
        (fun l hl => hlines l (List.mem_cons_of_mem _ hl)) rfl rfl w rfl (h.past l l')
      exact ⟨w', e, k, k', Nat.le_trans he (Nat.sub_le _ _), hreach.trans hreach'⟩

/-- Inside a block it is one more newline, if the stack has room for it. -/
theorem reaches_blankLine_block (hline : BlankLine line) (hlook : p.look = none)
    (hacc : p.accepting = false) (htop : top p.stack ∈ afterNewline)
    (h : AtLine (line ++ text) p.client.lex) :
    ∃ q l l', Reaches tables (client fs) p q ∧
      step tables (client fs) q = push tables (client fs) 26 ((client fs).lval q.client)
        ⟨p.stack, none, p.errflag - 1, false,
          p.client.withLex (p.client.lex.past text l l')⟩ := by
  have hfetch := @fetch_blankLine fs p line text hline ⟨hlook, .inr (defred_afterNewline htop)⟩ h
  have hshift := @step_of_shift _ _ _ tables (client fs) _ { p with
      look := some newline
      client := p.client.withLex (p.client.lex.past text (p.client.lex.file.lineno + 1)
        p.client.lex.file.lineno) } 26 newline hacc
    (defred_afterNewline htop) rfl ((shift_afterNewline htop _).trans (if_pos rfl))
  refine ⟨_, p.client.lex.file.lineno + 1, p.client.lex.file.lineno, .single hfetch,
    hshift.trans ?_⟩
  rw [hacc]

/-- Blank lines inside a block. -/
theorem reaches_blankLines_block {lines : List (List Byte)} (hlines : ∀ l ∈ lines, BlankLine l)
    (hlook : p.look = none) (hacc : p.accepting = false) (htop : top p.stack ∈ afterNewline)
    (hroom : p.stack.length + lines.length < tables.maxDepth)
    (h : AtLine (lines.flatten ++ text) p.client.lex) :
    ∃ stack e l l', Lengthened p.stack stack ∧ stack.length = p.stack.length + lines.length ∧
      Reaches tables (client fs) p ⟨stack, none, e, false,
        p.client.withLex (p.client.lex.past text l l')⟩ := by
  induction lines generalizing p with
  | nil =>
      obtain ⟨stack, look, errflag, accepting, y⟩ := p
      subst hlook hacc
      refine ⟨stack, errflag, y.lex.file.lineno, y.lex.lineno, .refl _, rfl, ?_⟩
      rw [@past_self text y h]
      exact .refl
  | cons line lines ih =>
      rw [List.flatten_cons, List.append_assoc] at h
      rw [List.length_cons] at hroom ⊢
      obtain ⟨q, k, k', hreach, hpush⟩ := @reaches_blankLine_block fs p line _
        (hlines line List.mem_cons_self) hlook hacc htop h
      have hstep := hpush.trans (push_of_lt (show p.stack.length + 1 < tables.maxDepth by omega))
      obtain ⟨stack, e, l, l', hlong, hlength, hreach'⟩ :=
        @ih ⟨(26, (client fs).lval q.client) :: p.stack, none, p.errflag - 1, false,
            p.client.withLex (p.client.lex.past (lines.flatten ++ text) k k')⟩
          (fun l hl => hlines l (List.mem_cons_of_mem _ hl)) rfl rfl
          (show 26 ∈ afterNewline by decide) (by simp only [List.length_cons]; omega) (h.past k k')
      refine ⟨stack, e, l, l', ((Lengthened.refl _).push _).trans hlong, ?_,
        (hreach.tail hstep).trans hreach'⟩
      rw [hlength]
      simp only [List.length_cons]
      omega

/-- More of them than the stack has room for are an error. -/
theorem ends_of_full {lines : List (List Byte)} (hlines : ∀ l ∈ lines, BlankLine l)
    (hlook : p.look = none) (hacc : p.accepting = false) (htop : top p.stack ∈ afterNewline)
    (hroom : p.stack.length < tables.maxDepth)
    (hfull : tables.maxDepth ≤ p.stack.length + lines.length)
    (h : AtLine (lines.flatten ++ text) p.client.lex) :
    ∃ y, Ends tables (client fs) p (.abort, (client fs).overflow y) := by
  induction lines generalizing p with
  | nil =>
      rw [List.length_nil] at hfull
      omega
  | cons line lines ih =>
      rw [List.flatten_cons, List.append_assoc] at h
      rw [List.length_cons] at hfull
      obtain ⟨q, k, k', hreach, hpush⟩ := @reaches_blankLine_block fs p line _
        (hlines line List.mem_cons_self) hlook hacc htop h
      by_cases hlast : tables.maxDepth ≤ p.stack.length + 1
      · exact ⟨_, (Ends.of_reaches hreach).2
          ((Ends.of_done (hpush.trans (push_of_le hlast))).2 rfl)⟩
      · obtain ⟨y, hy⟩ := @ih ⟨(26, (client fs).lval q.client) :: p.stack, none, p.errflag - 1, false,
            p.client.withLex (p.client.lex.past (lines.flatten ++ text) k k')⟩
          (fun l hl => hlines l (List.mem_cons_of_mem _ hl)) rfl rfl
          (show 26 ∈ afterNewline by decide) (by simp only [List.length_cons]; omega)
          (by simp only [List.length_cons]; omega) (h.past k k')
        have hstep := hpush.trans (push_of_lt (Nat.not_le.1 hlast))
        exact ⟨y, (Ends.of_reaches (hreach.tail hstep)).2 hy⟩

end Steps

/-! ## The same place in both texts -/

/-- The parser is between two lines of the text, `text` is left of it, and `n` newlines more
have room on the stack. -/
structure Between (fs : FileSystem) (text : List Byte) (n : Nat) (p : State Token Val Yy) :
    Prop where
  look : p.look = none
  line : LineStart text p.client.lex
  place : p.accepting = true ∨ RoomFor fs n p

/-- The parser once the files above the last one were left. -/
def settledState (p : State Token Val Yy) : State Token Val Yy :=
  { p with client := p.client.withLex p.client.lex.settled }

section Between

variable {fs fs' : FileSystem} {after text : List Byte} {n : Nat} {p q : State Token Val Yy}

theorem settle_errors_ne (f : File) (prev : List File) (h : f.errors ≠ 0) :
    (settle f prev).errors ≠ 0 := by
  induction prev generalizing f with
  | nil => exact h
  | cons p ps ih => exact ih _ (by simp only; omega)

theorem Flagged.settled (h : Flagged p) : Flagged (settledState p) :=
  ⟨h.le, h.low, h.afterInclude, h.afterName, fun hflag => settle_errors_ne _ _ (h.errors hflag)⟩

theorem step_settled (hcalls : Calls tables p) (h : LineStart text p.client.lex)
    (htext : text ≠ []) :
    step tables (client fs) p = step tables (client fs) (settledState p) := by
  have hlex : (client fs).lex p.client = (client fs).lex (settledState p).client := by
    simp only [client, settledState, Yy.withLex]
    rw [h.yylex htext]
  rw [step_of_calls hcalls, @step_of_calls _ _ _ tables (client fs) _ (settledState p) hcalls]
  simp only [fetch, hlex]
  rfl

theorem calls_of_between (h : Between fs text n p) : Calls tables p := by
  exact ⟨h.look, h.place.imp_right fun hroom => defred_afterNewline hroom.top⟩

/-- The room does not depend on the files that are still open. -/
theorem RoomFor.settled (hroom : RoomFor fs n p)
    (hstep : step tables (client fs) p = step tables (client fs) (settledState p)) :
    RoomFor fs n (settledState p) := by
  refine ⟨hroom.top, fun r hr => ?_⟩
  rcases Relation.ReflTransGen.cases_head hr with rfl | ⟨r', hr', hrest⟩
  · exact hroom.room p .refl
  · exact hroom.room r (.head ⟨hstep.trans hr'.1, hr'.2⟩ hrest)

/-- The stack at the top level holds the statements so far and nothing else. -/
theorem stack_of_final {stack : List (Nat × Val)} (hpath : Path Edge stack)
    (htop : top stack = tables.final) : ∃ v, stack = [(1, v)] := by
  have hone : predecessors 1 = [0] := by decide +kernel
  have hzero : predecessors 0 = [] := by decide +kernel
  obtain _ | ⟨⟨st, v⟩, rest⟩ := stack
  · exact absurd htop (by decide)
  · obtain rfl : st = 1 := htop
    have hbelow := hpath.1.mem_predecessors
    rw [hone, List.mem_singleton] at hbelow
    obtain _ | ⟨⟨st, w⟩, rest⟩ := rest
    · exact ⟨v, rfl⟩
    · obtain rfl : st = 0 := hbelow
      have hnone := hpath.2.1.mem_predecessors
      rw [hzero] at hnone
      cases hnone

/-- The lexers after the inserted lines. -/
theorem paired_past {look : Option Token} (hafter : after ≠ [])
    (h : Paired (LexPairWith (Above (Grafted after text)) look) p.client q.client)
    (hp : LineStart after p.client.lex) (hq : LineStart text q.client.lex) (l l' : Nat) :
    Paired (LexPairWith SameFiles none) (settledState p).client
      (q.client.withLex (q.client.lex.settled.past after l l')) := by
  have hsame := congrArg (Yy.withLex · (q.client.lex.settled.past after l l')) h.same
  have herrors := Grafted.settle_errors hafter h.lex.pair.files
  exact ⟨hsame, ⟨.file ⟨hp.settled_rest.symm, herrors⟩ (.base ⟨rfl, rfl⟩),
    hq.parsebuf.trans hp.parsebuf.symm, hq.pushback.trans hp.pushback.symm, h.lex.pair.symhead⟩,
    by simp⟩

/-- The inserted lines were read by the second parser, and the parsers are together again or
differ in the newlines on their stacks. -/
theorem Together.past_blankLines {lines : List (List Byte)} (hlines : ∀ l ∈ lines, BlankLine l)
    (hafter : after ≠ [])
    (h : Together (Above (Grafted after (lines.flatten ++ after))) p q)
    (htop : p.accepting = true → top p.stack = tables.final)
    (hp : Between fs after lines.length p) :
    ∃ q', (∀ r, Ends tables (client fs') q r ↔ Ends tables (client fs') q' r) ∧
      (Together SameFiles (settledState p) q' ∨
        RoomFor fs lines.length (settledState p) ∧
          MoreNewlines fs lines.length (settledState p) (settledState p) q') := by
  have hpair := h.abreast.client.lex.pair
  have htext : lines.flatten ++ after ≠ [] := by simp [hafter]
  have hq : LineStart (lines.flatten ++ after) q.client.lex := by
    refine ⟨hpair.parsebuf.trans hp.line.parsebuf, hpair.pushback.trans hp.line.pushback,
      Grafted.above hpair.files hp.line.above, Grafted.root hpair.files hp.line.root, ?_⟩
    intro hprev
    cases lines with
    | nil =>
        refine hp.line.slash fun hnil => hprev ?_
        have hlen := Grafted.length hpair.files
        simpa [Lex.files, hnil] using hlen
    | cons line lines =>
        rw [List.flatten_cons, List.append_assoc]
        exact (hlines line List.mem_cons_self).head_ne _
  have hstep := @step_settled fs' _ q (h.abreast.calls (calls_of_between hp)) hq htext
  have hflagged := h.second.settled
  have hlook : q.look = none := h.abreast.look.trans hp.look
  have hend {q' : State Token Val Yy} (hreach : Reaches tables (client fs') (settledState q) q')
      (r : Status × Yy) : Ends tables (client fs') q r ↔ Ends tables (client fs') q' r :=
    (Ends.congr hstep).trans (Ends.of_reaches hreach)
  by_cases hacc : p.accepting = true
  · obtain ⟨v, hstack⟩ := stack_of_final h.path (htop hacc)
    have hstack' := h.abreast.stack
    rw [hstack] at hstack'
    obtain ⟨⟨st, v'⟩, rest', hentry, hrest, hq'⟩ := List.forall₂_cons_left_iff.1 hstack'
    obtain rfl := List.forall₂_nil_left_iff.1 hrest
    obtain rfl : st = 1 := hentry.state
    obtain ⟨w, e, l, l', he, hreach⟩ := @reaches_blankLines_top fs' (settledState q) after lines
      hlines hlook (h.abreast.accepting.trans hacc) v' hq' hq.atLine
    have hlt : p.errflag < 3 := h.first.low.resolve_right fun herr => by
      rw [hstack] at herr
      exact absurd herr (show (1 : Nat) ≠ 7 by decide)
    have hlt' : q.errflag < 3 := h.second.low.resolve_right fun herr => by
      rw [hq'] at herr
      exact absurd herr (show (1 : Nat) ≠ 7 by decide)
    refine ⟨_, hend hreach, .inl ⟨h.first.settled, hflagged.reaches hreach, h.path, ?_, hp.look.symm,
      .inr ⟨hlt, Nat.lt_of_le_of_lt he hlt'⟩, hacc.symm, ?_⟩⟩
    · rw [show (settledState p).stack = [(1, v)] from hstack]
      exact .cons ⟨rfl, fun hvalued => absurd hvalued (show 1 ∉ valued by decide)⟩ .nil
    · rw [show (settledState p).look = none from hp.look]
      exact paired_past hafter h.abreast.client hp.line hq l l'
  · have hroom := hp.place.resolve_left hacc
    rw [Bool.not_eq_true] at hacc
    have hbase := h.abreast.stack
    have htop' := top_of_entries hbase ▸ hroom.top
    have hlength := hbase.length_eq
    have hfit : (settledState q).stack.length + lines.length < tables.maxDepth := by
      have := hroom.room p .refl
      change q.stack.length + lines.length < tables.maxDepth
      omega
    obtain ⟨stack, e, l, l', hlong, hstack, hreach⟩ := @reaches_blankLines_block fs'
      (settledState q) after lines hlines hlook (h.abreast.accepting.trans hacc) htop' hfit hq.atLine
    refine ⟨_, hend hreach, .inr ⟨hroom.settled ?_, h.first.settled, hflagged.reaches hreach, h.path,
      .refl, .refl _, ⟨q.stack, hbase, hlong⟩, ?_, hp.look.symm, ⟨hacc, rfl⟩, ?_⟩⟩
    · exact step_settled (calls_of_between hp) hp.line hafter
    · change stack.length = p.stack.length + lines.length
      rw [hstack, hlength]
      rfl
    · rw [show (settledState p).look = none from hp.look]
      exact paired_past hafter h.abreast.client hp.line hq l l'

end Between

/-! ## The result of a parse -/

/-- What `parse_config` returns after a run of the parser; `none` is a crash. -/
def verdict : Status × Yy → Option (Option IfconfigdConf)
  | (.crash, _) => none
  | (_, y) => some (if y.lex.file.errors ≠ 0 then none else some y.heap.read)

section Verdict

variable {fs fs' : FileSystem} {filename : CStr} {g : Globals} {file file' : File}
  {o : Option (Option IfconfigdConf)}

theorem outcome_iff_ends (hfile : pushfile fs g.files filename false = some file) :
    (∃ fuel, outcome (parseConfig fs fuel filename g) = some o) ↔
      ∃ r, Ends tables (client fs) (.initial (g.start file)) r ∧ verdict r = o := by
  have hparse (fuel : Nat) : outcome (parseConfig fs fuel filename g) =
      (run tables (client fs) fuel (.initial (g.start file))).map verdict := by
    rw [parseConfig.eq_def, hfile]
    dsimp only
    rcases run tables (client fs) fuel (.initial (g.start file)) with _ | ⟨_ | _ | _, y⟩ <;> rfl
  constructor
  · rintro ⟨fuel, h⟩
    rw [hparse, Option.map_eq_some_iff] at h
    obtain ⟨r, hrun, hr⟩ := h
    exact ⟨r, ⟨fuel, hrun⟩, hr⟩
  · rintro ⟨r, ⟨fuel, hrun⟩, hr⟩
    exact ⟨fuel, by rw [hparse, hrun, Option.map_some, hr]⟩

/-- Runs that end alike have the same verdict. -/
theorem verdict_of_endsAlike {Fr : List File → List File → Prop}
    (hFr : ∀ {f f' prev prev'}, Fr (f :: prev) (f' :: prev') → (f'.errors = 0 ↔ f.errors = 0))
    {r r' : Status × Yy} (h : EndsAlike Fr r r') : verdict r' = verdict r := by
  obtain ⟨status, y⟩ := r
  obtain ⟨status', z⟩ := r'
  obtain ⟨hstatus, look, hpaired⟩ := h
  obtain rfl : status' = status := hstatus
  have herrors := hFr hpaired.lex.pair.files
  have hsame : z = y.withLex z.lex := hpaired.same
  have hheap : z.heap = (y.withLex z.lex).heap := congrArg Yy.heap hsame
  have hvalue : (if z.lex.file.errors ≠ 0 then none else some z.heap.read) =
      if y.lex.file.errors ≠ 0 then none else some y.heap.read := by
    rw [hheap]
    exact if_congr (not_congr herrors) rfl rfl
  cases status' with
  | crash => rfl
  | accept => exact congrArg some hvalue
  | abort => exact congrArg some hvalue

theorem outcome_iff_of_ends {Fr : List File → List File → Prop}
    (hFr : ∀ {f f' prev prev'}, Fr (f :: prev) (f' :: prev') → (f'.errors = 0 ↔ f.errors = 0))
    (hfile : pushfile fs g.files filename false = some file)
    (hfile' : pushfile fs' g.files filename false = some file')
    (hforth : ∀ r, Ends tables (client fs) (.initial (g.start file)) r →
      ∃ r', Ends tables (client fs') (.initial (g.start file')) r' ∧ EndsAlike Fr r r')
    (hback : ∀ r', Ends tables (client fs') (.initial (g.start file')) r' →
      ∃ r, Ends tables (client fs) (.initial (g.start file)) r ∧ EndsAlike Fr r r') :
    (∃ fuel, outcome (parseConfig fs fuel filename g) = some o) ↔
      ∃ fuel, outcome (parseConfig fs' fuel filename g) = some o := by
  rw [outcome_iff_ends hfile, outcome_iff_ends hfile']
  constructor
  · rintro ⟨r, hr, rfl⟩
    obtain ⟨r', hr', halike⟩ := hforth r hr
    exact ⟨r', hr', verdict_of_endsAlike hFr halike⟩
  · rintro ⟨r', hr', rfl⟩
    obtain ⟨r, hr, halike⟩ := hback r' hr'
    exact ⟨r, hr, (verdict_of_endsAlike hFr halike).symm⟩

end Verdict

/-! ## Blank lines between two lines of a text -/

theorem SameFiles.errors {f f' : File} {prev prev' : List File}
    (h : SameFiles (f :: prev) (f' :: prev')) : f'.errors = 0 ↔ f.errors = 0 := by
  cases h with
  | base h => exact absurd h.1 (List.cons_ne_nil _ _)
  | file hf _ => exact hf.errors

theorem Grafted.errors {after tail : List Byte} {f f' : File} {prev prev' : List File}
    (h : Above (Grafted after tail) (f :: prev) (f' :: prev')) : f'.errors = 0 ↔ f.errors = 0 := by
  rcases Grafted.cons h with ⟨-, -, herrors, -⟩ | ⟨_, _, _, _, -, -, hf, -⟩
  · exact herrors
  · exact hf.errors

section Insert

variable {fs fs' : FileSystem} {before after : List Byte} {lines : List (List Byte)}
  {p q : State Token Val Yy}

/-- A run that never comes to the rest of the text. -/
theorem Together.ends_unread {tail : List Byte} (hafter : after ≠ []) (hfs : SameIncludes fs fs')
    (h : Together (Above (Grafted after tail)) p q)
    (hunread : ∀ p', Reaches tables (client fs) p p' →
      ¬ReadsLast after.length p'.client.lex.files) :
    (∀ r, Ends tables (client fs) p r →
        ∃ r', Ends tables (client fs') q r' ∧ EndsAlike (Above (Grafted after tail)) r r') ∧
      ∀ r', Ends tables (client fs') q r' →
        ∃ r, Ends tables (client fs) p r ∧ EndsAlike (Above (Grafted after tail)) r r' := by
  refine GoOn.ends (S := fun p' q' => Reaches tables (client fs) p p' ∧
    Together (Above (Grafted after tail)) p' q') (fun p' q' h => ?_) ⟨.refl, h⟩
  obtain ⟨hreach, h⟩ := h
  have hstep := @Together.step _ _ fs fs' _ _ (filesSim_above (baseSim_grafted hafter))
    (filesActs_above (baseSim_grafted hafter)) h
    (fun hcalls => hunread _ (hreach.tail (step_of_calls hcalls)))
    (fun _ => sameOpens_of_length hfs (Grafted.length h.abreast.client.lex.pair.files))
  exact .of_relates (hstep.imp fun _ _ hp _ hm => ⟨hreach.tail hp, hm⟩)

/-- Lines are inserted where the parser comes between two lines. -/
theorem Together.ends_between (hlines : ∀ l ∈ lines, BlankLine l) (hafter : after ≠ [])
    (hfs : SameIncludes fs fs')
    (h : Together (Above (Grafted after (lines.flatten ++ after))) p q)
    (htop : p.accepting = true → top p.stack = tables.final)
    (hp : Between fs after lines.length p) :
    (∀ r, Ends tables (client fs) p r →
        ∃ r', Ends tables (client fs') q r' ∧ EndsAlike SameFiles r r') ∧
      ∀ r', Ends tables (client fs') q r' →
        ∃ r, Ends tables (client fs) p r ∧ EndsAlike SameFiles r r' := by
  obtain ⟨q', hq, hS⟩ := @Together.past_blankLines fs fs' _ _ _ _ hlines hafter h htop hp
  have hp' (r : Status × Yy) :
      Ends tables (client fs) p r ↔ Ends tables (client fs) (settledState p) r :=
    Ends.congr (step_settled (calls_of_between hp) hp.line hafter)
  have hends := @GoOn.ends fs fs' SameFiles (fun p₁ q₁ => Together SameFiles p₁ q₁ ∨
      RoomFor fs lines.length (settledState p) ∧
        MoreNewlines fs lines.length (settledState p) p₁ q₁) (settledState p) q'
    (fun p₁ q₁ h => ?_) hS
  · simp only [hp', hq]
    exact hends
  · rcases h with h | ⟨hroom, h⟩
    · exact (h.goOn hfs).imp_rel fun _ _ => .inl
    · exact (h.goOn hfs hroom).imp_rel fun _ _ => Or.imp_right fun h => ⟨hroom, h⟩

end Insert

/-- Two parses of texts with a common beginning. -/
theorem together_start {g : Globals} (hg : g.files = []) (name : CStr) (before tail tail' : List Byte) :
    Together (Above (Grafted tail tail')) (.initial (g.start ⟨name, before ++ tail, 1, 0⟩))
      (.initial (g.start ⟨name, before ++ tail', 1, 0⟩)) := by
  refine ⟨flagged_initial _, flagged_initial _, trivial, .nil, rfl, .inl rfl, rfl, rfl,
    ⟨?_, rfl, rfl, rfl⟩, by simp [State.initial]⟩
  simp only [State.initial, Globals.start, Lex.files, hg]
  exact .base (.intro before rfl rfl Iff.rfl)

/-- Where blank lines can be put in a text that ends with `after`: this is never read, or the
parser comes between two lines there. -/
def Inserts (fs : FileSystem) (after : List Byte) (n : Nat) (p : State Token Val Yy) : Prop :=
  (∀ p', Reaches tables (client fs) p p' → ¬ReadsLast after.length p'.client.lex.files) ∨
    ∃ p', Reaches tables (client fs) p p' ∧ Between fs after n p'

/-- The parser needs a token and the lexer is at the beginning of a line. -/
def atLine (text : List Byte) (p : State Token Val Yy) : Bool :=
  p.look.isNone && p.client.lex.parsebuf.isNone && p.client.lex.pushback.isEmpty &&
    p.client.lex.prev.isEmpty && p.client.lex.file.rest == text

theorem atLine_iff {text : List Byte} {p : State Token Val Yy} :
    atLine text p = true ↔ p.look = none ∧ AtLine text p.client.lex := by
  simp only [atLine, Bool.and_eq_true, Option.isNone_iff_eq_none, List.isEmpty_iff, beq_iff_eq]
  constructor
  · rintro ⟨⟨⟨⟨hlook, hbuf⟩, hpush⟩, hprev⟩, hrest⟩
    exact ⟨hlook, hbuf, hpush, hprev, hrest⟩
  · rintro ⟨hlook, hbuf, hpush, hprev, hrest⟩
    exact ⟨⟨⟨⟨hlook, hbuf⟩, hpush⟩, hprev⟩, hrest⟩

theorem AtLine.lineStart {text : List Byte} {s : Lex} (h : AtLine text s) : LineStart text s where
  parsebuf := h.parsebuf
  pushback := h.pushback
  above := by simp [Lex.files, h.prev]
  root := by simpa [Lex.root, h.prev] using h.rest
  slash hne := absurd h.prev hne

/-- The standard input is not a file that can be included. -/
theorem sameIncludes_stdin (fs : FileSystem) (text : List Byte) :
    SameIncludes fs { fs with stdin := text } := by
  intro files name hfiles
  rw [pushfile.eq_def, pushfile.eq_def, if_neg fun h => hfiles h.1, if_neg fun h => hfiles h.1]
  rfl

theorem Together.atLine {tail tail' : List Byte} {p q : State Token Val Yy}
    (h : Together (Above (Grafted tail tail')) p q) (hp : AtLine tail p.client.lex) :
    AtLine tail' q.client.lex := by
  have hpair := h.abreast.client.lex.pair
  have hprev : q.client.lex.prev = [] := by
    have hlen := Grafted.length hpair.files
    simpa [Lex.files, hp.prev] using hlen
  have hroot := Grafted.root hpair.files hp.lineStart.root
  rw [hprev] at hroot
  exact ⟨hpair.parsebuf.trans hp.parsebuf, hpair.pushback.trans hp.pushback, hprev, hroot⟩

/-- The first line and the rest of a network section. -/
def networkLine : List Byte := (CStr.lit "network n \x7b\n").bytes

def ethernetBlock : List Byte := (CStr.lit "ethernet e \x7b\n\x7d\n\x7d\n").bytes

end Ifconfigd.Parse
