import Ifconfigd.Parse.Simulation

/-!
# Lexers on top of finished files

A file that was read to its end may stay in the list of open files, and macros of an
earlier parse in the symbol table. A lexer that reads its input on top of such files
returns the same tokens as one that has only its own files, as long as it looks up no
macro that only its table has, and its input does not end inside a quoted string: there
`lgetc` looks for a file to go back to.
-/

namespace Ifconfigd.Parse

open CLib

/-! ## Lexers with files below -/

/-- What the parser finds in a file: the characters left, and the errors. -/
def File.data (f : File) : List Byte × Nat := (f.rest, f.errors)

/-- The open files, innermost first. -/
def Lex.files (s : Lex) : List File := s.file :: s.prev

/-- `names` are the macros only the second table has, and none of them is persistent. -/
structure Extends (names : List CStr) (t₁ t₂ : List Sym) : Prop where
  kept : ∀ nam sym, t₁.find? (fun sym => sym.nam = nam) = some sym →
    t₂.find? (fun sym => sym.nam = nam) = some sym
  extra : ∀ nam sym, t₁.find? (fun sym => sym.nam = nam) = none →
    t₂.find? (fun sym => sym.nam = nam) = some sym → nam ∈ names ∧ sym.persist = false
  nodup₁ : (t₁.map Sym.nam).Nodup
  nodup₂ : (t₂.map Sym.nam).Nodup

/-- The second lexer reads the same input, on top of at most `K` files that are read to
their end without errors. The value of the last token agrees once there was one. -/
structure Atop (names : List CStr) (K : Nat) (s t : Lex) : Prop where
  files : ∃ k ≤ K, t.files.map File.data = s.files.map File.data ++ List.replicate k ([], 0)
  parsebuf : t.parsebuf = s.parsebuf
  pushback : t.pushback = s.pushback
  symhead : Extends names s.symhead t.symhead
  val : s.val = .none ∨ t.val = s.val

/-- The reports `ds₀` were made before. -/
def Since (ds₀ : List Diag) (s : Lex) : Prop := ∃ ds, s.diags = ds ++ ds₀

/-- A call of the lexer has gone wrong for the comparison, counting from the reports
`ds₀` before it: it missed one of the macros `names`, or the input came to its end
inside a quoted string. -/
def Astray (names : List CStr) (ds₀ : List Diag) (s : Lex) : Prop :=
  ∃ ds, s.diags = ds ++ ds₀ ∧
    ((∃ d ∈ ds, ∃ nam ∈ names, d.message = .macroNotDefined nam) ∨
      (∃ d ∈ ds, d.message = .quotedEof) ∧ s.file.rest = [] ∧ s.prev = [])

section Astray

variable {names : List CStr} {ds₀ : List Diag} {s s' : Lex}

/-- More reports, and no more input. -/
theorem Astray.mono (h : Astray names ds₀ s) (ds : List Diag) (hdiags : s'.diags = ds ++ s.diags)
    (hfile : s.file.rest = [] → s.prev = [] → s'.file.rest = [] ∧ s'.prev = []) :
    Astray names ds₀ s' := by
  obtain ⟨ds', hds', hcase⟩ := h
  refine ⟨ds ++ ds', by rw [hdiags, hds', List.append_assoc], ?_⟩
  rcases hcase with ⟨d, hd, hnam⟩ | ⟨⟨d, hd, hquoted⟩, hrest, hprev⟩
  · exact .inl ⟨d, List.mem_append_right _ hd, hnam⟩
  · exact .inr ⟨⟨d, List.mem_append_right _ hd, hquoted⟩, hfile hrest hprev⟩

theorem Astray.of_same (h : Astray names ds₀ s) (hdiags : s'.diags = s.diags)
    (hrest : s'.file.rest = s.file.rest) (hprev : s'.prev = s.prev) : Astray names ds₀ s' :=
  h.mono [] hdiags fun hr hp => ⟨hrest.trans hr, hprev.trans hp⟩

/-- `lgetc` reports at most the end of a file inside quotes, and does not get away from
the end of the input. -/
theorem Astray.lgetcInput (quotec : Int) (h : Astray names ds₀ s) :
    Astray names ds₀ (lgetcInput quotec s).2 := by
  simp only [Parse.lgetcInput]
  split
  · exact h.of_same rfl rfl rfl
  · split
    · simp only [getcQuoted]
      split
      · next b rest hrest =>
          refine h.mono [] rfl fun hempty => ?_
          rw [hempty] at hrest
          cases hrest
      · next hrest =>
          split
          · exact h.mono [_] rfl fun _ hprev => ⟨hrest, hprev⟩
          · next s' hpop =>
              simp only [popfile] at hpop
              split at hpop
              · cases hpop
              · next p ps hprev =>
                  cases hpop
                  refine h.mono [_] rfl fun _ hempty => ?_
                  rw [yyerror, hempty] at hprev
                  cases hprev
    · simp only [getcJoined]
      split
      · next b hb =>
          refine h.mono [] rfl fun hempty => ?_
          rw [hempty] at hb
          cases hb
      · refine h.mono [] rfl fun hrest hprev => ?_
        rw [hrest, hprev]
        exact ⟨rfl, rfl⟩

theorem lexKeeps_astray : LexKeeps (Astray names ds₀) where
  lgetc quotec _ := lgetc_holds (fun _ _ h => h.of_same rfl rfl rfl) fun _ h => h.lgetcInput quotec
  lungetc c _ h :=
    lungetc_holds (P := Astray names ds₀) (fun _ _ h => h.of_same rfl rfl rfl)
      (fun _ _ h => h.of_same rfl rfl rfl) h c
  yyerror _ _ h := h.mono [_] rfl fun hrest hprev => ⟨hrest, hprev⟩
  endMacro _ h := h.of_same rfl rfl rfl
  startMacro _ _ _ h _ := h.of_same rfl rfl rfl
  nextLine _ h := h.of_same rfl rfl rfl
  lineno _ _ h := h.of_same rfl rfl rfl
  val _ _ h := h.of_same rfl rfl rfl

end Astray

/-! ## Reading on top of other files -/

/-- Which character `joinLines` finds does not depend on the line numbers. -/
theorem joinLines_data (rest : List Byte) (fl vl fl' vl' : Nat) :
    (joinLines rest fl vl).1 = (joinLines rest fl' vl').1 ∧
      (joinLines rest fl vl).2.1 = (joinLines rest fl' vl').2.1 := by
  fun_induction joinLines rest fl vl generalizing fl' vl' with
  | case1 => exact ⟨rfl, rfl⟩
  | case2 | case3 | case4 =>
      rw [joinLines.eq_def]
      simp_all
  | case5 =>
      rename_i hb _ _ hnext ih
      rw [joinLines.eq_def _ fl' vl']
      simpa [not_not.1 hb, not_not.1 hnext] using ih (fl' + 1) fl'

section Atop

variable {names : List CStr} {K : Nat} {ds₀ : List Diag} {s t : Lex}

/-- Leaving files that are read to their end without errors. -/
theorem popWhileEof_replicate {f : File} (hrest : f.rest = []) {prev : List File} {k : Nat}
    (h : prev.map File.data = List.replicate k ([], 0)) :
    ∃ g : File, popWhileEof f prev = (eof, g, []) ∧ g.data = f.data := by
  induction prev generalizing f k with
  | nil => exact ⟨f, rfl, rfl⟩
  | cons p ps ih =>
      cases k with
      | zero => cases h
      | succ k =>
          rw [List.map_cons, List.replicate_succ, List.cons.injEq] at h
          obtain ⟨hp, hps⟩ := h
          obtain ⟨name, rest, lineno, errors⟩ := p
          obtain ⟨rfl, rfl⟩ := Prod.mk.inj hp
          obtain ⟨g, hg, hdata⟩ := ih (f := ⟨name, [], lineno, 0 + f.errors⟩) rfl hps
          refine ⟨g, hg, hdata.trans ?_⟩
          rw [File.data, File.data, hrest, Nat.zero_add]

/-- Leaving files that were read to their end, on top of others of that kind. -/
theorem popWhileEof_atop {f f' : File} {prev prev' : List File} {k : Nat} (hrest : f.rest = [])
    (hf : f'.data = f.data)
    (hprev : prev'.map File.data = prev.map File.data ++ List.replicate k ([], 0)) :
    (popWhileEof f' prev').1 = (popWhileEof f prev).1 ∧
      ∃ k' ≤ k, ((popWhileEof f' prev').2.1 :: (popWhileEof f' prev').2.2).map File.data =
        ((popWhileEof f prev).2.1 :: (popWhileEof f prev).2.2).map File.data ++
          List.replicate k' ([], 0) := by
  induction prev generalizing f f' prev' with
  | nil =>
      have hrest' : f'.rest = [] := (Prod.mk.inj hf).1.trans hrest
      obtain ⟨g, hg, hdata⟩ := popWhileEof_replicate hrest' hprev
      rw [hg, popWhileEof]
      refine ⟨rfl, 0, Nat.zero_le k, ?_⟩
      simp [hdata, hf]
  | cons p ps ih =>
      cases prev' with
      | nil => cases hprev
      | cons p' ps' =>
          obtain ⟨name, rest, lineno, errors⟩ := p
          obtain ⟨name', rest', lineno', errors'⟩ := p'
          rw [List.map_cons, List.map_cons, List.cons_append, List.cons.injEq] at hprev
          obtain ⟨hp, hps⟩ := hprev
          obtain ⟨rfl, rfl⟩ := Prod.mk.inj hp
          have herrors : f'.errors = f.errors := (Prod.mk.inj hf).2
          cases rest' with
          | nil =>
              have hdata : File.data ⟨name', [], lineno', errors' + f'.errors⟩ =
                  File.data ⟨name, [], lineno, errors' + f.errors⟩ := by
                rw [File.data, File.data, herrors]
              have hnext := ih rfl hdata hps
              exact hnext
          | cons b rest =>
              refine ⟨rfl, k, Nat.le_refl k, ?_⟩
              simp [popWhileEof, File.data, herrors, hps]

theorem Atop.lgetcInput (h : Atop names K s t) {quotec : Int} (hds : Since ds₀ s)
    (hgood : ¬Astray names ds₀ (lgetcInput quotec s).2) :
    (lgetcInput quotec t).1 = (lgetcInput quotec s).1 ∧
      Atop names K (lgetcInput quotec s).2 (lgetcInput quotec t).2 := by
  obtain ⟨k, hk, hfiles⟩ := h.files
  have hfile : t.file.data = s.file.data ∧
      t.prev.map File.data = s.prev.map File.data ++ List.replicate k ([], 0) := by
    simpa [Lex.files] using hfiles
  obtain ⟨hfile, hprev⟩ := hfile
  obtain ⟨hrest, herrors⟩ := Prod.mk.inj hfile
  revert hgood
  simp only [Parse.lgetcInput, h.pushback]
  split
  · exact fun _ => ⟨rfl, ⟨k, hk, hfiles⟩, h.parsebuf, rfl, h.symhead, h.val⟩
  · split
    · simp only [getcQuoted, hrest]
      split
      · intro _
        refine ⟨rfl, ⟨k, hk, ?_⟩, h.parsebuf, h.pushback, h.symhead, h.val⟩
        simp [Lex.files, File.data, herrors, hprev]
      · next hempty =>
          cases hsprev : s.prev with
          | nil =>
              intro hgood
              refine absurd ?_ hgood
              obtain ⟨ds, hds⟩ := hds
              simp only [popfile, yyerror, hsprev]
              exact ⟨⟨s.file.name, s.lineno, .quotedEof⟩ :: ds, congrArg _ hds,
                .inr ⟨⟨_, List.mem_cons_self, rfl⟩, hempty, rfl⟩⟩
          | cons p ps =>
              intro _
              cases htprev : t.prev with
              | nil => simp [hsprev, htprev] at hprev
              | cons p' ps' =>
                  rw [hsprev, htprev, List.map_cons, List.map_cons, List.cons_append,
                    List.cons.injEq] at hprev
                  obtain ⟨hp, hps⟩ := hprev
                  obtain ⟨hprest, hperrors⟩ := Prod.mk.inj hp
                  simp only [popfile, yyerror, hsprev, htprev]
                  refine ⟨trivial, ⟨k, hk, ?_⟩, h.parsebuf, h.pushback, h.symhead, h.val⟩
                  simp [Lex.files, File.data, herrors, hprest, hperrors, hps]
    · intro _
      simp only [getcJoined, hrest]
      obtain ⟨hchar, hleft⟩ :=
        joinLines_data s.file.rest t.file.lineno t.lineno s.file.lineno s.lineno
      simp only [hchar, hleft]
      split
      · refine ⟨rfl, ⟨k, hk, ?_⟩, h.parsebuf, h.pushback, h.symhead, h.val⟩
        simp [Lex.files, File.data, herrors, hprev]
      · next hnone =>
          have hdata : ∀ l l', File.data { t.file with rest := [], lineno := l } =
              File.data { s.file with rest := [], lineno := l' } :=
            fun _ _ => congrArg (Prod.mk []) herrors
          rw [joinLines_none hnone]
          obtain ⟨heq, k', hk', hfiles'⟩ := popWhileEof_atop rfl (hdata _ _) hprev
          exact ⟨heq, ⟨k', hk'.trans hk, hfiles'⟩, h.parsebuf, h.pushback, h.symhead, h.val⟩

theorem Atop.lgetc (h : Atop names K s t) {quotec : Int} (hds : Since ds₀ s)
    (hgood : ¬Astray names ds₀ (lgetc quotec s).2) :
    (lgetc quotec t).1 = (lgetc quotec s).1 ∧
      Atop names K (lgetc quotec s).2 (lgetc quotec t).2 := by
  have hbuf : ∀ buf, Atop names K { s with parsebuf := buf } { t with parsebuf := buf } :=
    fun buf => ⟨h.files, rfl, h.pushback, h.symhead, h.val⟩
  revert hgood
  simp only [Parse.lgetc, h.parsebuf]
  split
  · next hnone => exact h.lgetcInput hds
  · split
    · split
      · exact fun _ => ⟨rfl, hbuf _⟩
      · exact (hbuf _).lgetcInput hds
    · exact (hbuf _).lgetcInput hds

theorem Atop.lungetc (h : Atop names K s t) (c : Int) :
    Atop names K (lungetc c s) (lungetc c t) := by
  have hpush : ∀ {s t : Lex}, Atop names K s t →
      Atop names K (lungetc.push c s) (lungetc.push c t) := by
    intro s t h
    simp only [lungetc.push, h.pushback]
    split
    · exact ⟨h.files, h.parsebuf, rfl, h.symhead, h.val⟩
    · exact h
  have hbuf : ∀ buf, Atop names K { s with parsebuf := buf } { t with parsebuf := buf } :=
    fun buf => ⟨h.files, rfl, h.pushback, h.symhead, h.val⟩
  simp only [Parse.lungetc, h.parsebuf]
  split
  · exact h
  · split
    · exact hpush h
    · split
      · exact hbuf _
      · exact hpush (hbuf _)

theorem Atop.yyerror (h : Atop names K s t) (m : Message) :
    Atop names K (yyerror m s) (yyerror m t) := by
  obtain ⟨k, hk, hfiles⟩ := h.files
  refine ⟨⟨k, hk, ?_⟩, h.parsebuf, h.pushback, h.symhead, h.val⟩
  simp_all [Lex.files, Parse.yyerror, File.data]

theorem Since.lgetcInput (h : Since ds₀ s) (quotec : Int) : Since ds₀ (lgetcInput quotec s).2 := by
  obtain ⟨ds, hds⟩ := h
  simp only [Parse.lgetcInput]
  split
  · exact ⟨ds, hds⟩
  · split
    · simp only [getcQuoted, popfile]
      split
      · exact ⟨ds, hds⟩
      · refine ⟨⟨s.file.name, s.lineno, .quotedEof⟩ :: ds, ?_⟩
        cases hprev : (Parse.yyerror .quotedEof s).prev <;> exact congrArg _ hds
    · simp only [getcJoined]
      split <;> exact ⟨ds, hds⟩

theorem lexKeeps_since : LexKeeps (Since ds₀) where
  lgetc quotec _ := lgetc_holds (fun _ _ h => h) fun _ h => h.lgetcInput quotec
  lungetc c _ h := lungetc_holds (P := Since ds₀) (fun _ _ h => h) (fun _ _ h => h) h c
  yyerror _ _ := fun ⟨ds, hds⟩ => ⟨_ :: ds, congrArg _ hds⟩
  endMacro _ h := h
  startMacro _ _ _ h _ := h
  nextLine _ h := h
  lineno _ _ h := h
  val _ _ h := h

/-- The relation between the two lexers in a call that began with the reports `ds₀`. -/
structure AtopSim (names : List CStr) (K : Nat) (ds₀ : List Diag) (hs : List Int) (s t : Lex) :
    Prop where
  atop : Atop names K s t
  since : Since ds₀ s
  range : ∀ c ∈ hs, -128 ≤ c ∧ c < 256

theorem AtopSim.lgetc {hs : List Int} (h : AtopSim names K ds₀ hs s t) {quotec : Int}
    (hq : quotec = 0 ∨ quotec = ch '\'' ∨ quotec = ch '"')
    (hgood : ¬Astray names ds₀ (lgetc quotec s).2) :
    (lgetc quotec t).1 = (lgetc quotec s).1 ∧
      AtopSim names K ds₀ ((lgetc quotec s).1 :: hs) (lgetc quotec s).2 (lgetc quotec t).2 := by
  obtain ⟨heq, hatop⟩ := h.atop.lgetc h.since hgood
  refine ⟨heq, hatop, lexKeeps_since.lgetc quotec s h.since, ?_⟩
  intro c hc
  rcases List.mem_cons.1 hc with rfl | hc
  · exact lgetc_range hq s
  · exact h.range c hc

theorem AtopSim.skip {hs : List Int} (h : AtopSim names K ds₀ hs s t) (p : Int → Bool)
    (hgood : ¬Astray names ds₀ (skip p s).2) :
    (skip p t).1 = (skip p s).1 ∧ AtopSim names K ds₀ [] (skip p s).2 (skip p t).2 := by
  fun_induction Parse.skip p s generalizing t hs with
  | case1 s hc ih =>
      have hgood' : ¬Astray names ds₀ (Parse.lgetc 0 s).2 := fun hb =>
        hgood (lexKeeps_astray.skip p hb)
      obtain ⟨heq, h'⟩ := h.lgetc (.inl rfl) hgood'
      rw [Parse.skip.eq_def p t, heq, dif_pos hc]
      exact ih h' hgood
  | case2 s hc =>
      obtain ⟨heq, h'⟩ := h.lgetc (.inl rfl) hgood
      rw [Parse.skip.eq_def p t, heq, dif_neg hc]
      exact ⟨heq, h'.atop, h'.since, by simp⟩

theorem AtopSim.congr {hs : List Int} {f : Lex → Lex} (h : AtopSim names K ds₀ hs s t)
    (hf : ∀ s, (f s).files.map File.data = s.files.map File.data ∧ (f s).parsebuf = s.parsebuf ∧
      (f s).pushback = s.pushback ∧ (f s).symhead = s.symhead ∧ (f s).val = s.val ∧
      (f s).diags = s.diags) : AtopSim names K ds₀ hs (f s) (f t) := by
  obtain ⟨⟨hfiles, hbuf, hpush, hsym, hval⟩, hsince, hrange⟩ := h
  obtain ⟨hs₁, hs₂, hs₃, hs₄, hs₅, hs₆⟩ := hf s
  obtain ⟨ht₁, ht₂, ht₃, ht₄, ht₅, -⟩ := hf t
  refine ⟨⟨?_, ?_, ?_, ?_, ?_⟩, ?_, hrange⟩
  · rwa [hs₁, ht₁]
  · rwa [hs₂, ht₂]
  · rwa [hs₃, ht₃]
  · rwa [hs₄, ht₄]
  · rwa [hs₅, ht₅]
  · rwa [Since, hs₆]

theorem AtopSim.findeol {hs : List Int} (h : AtopSim names K ds₀ hs s t)
    (hgood : ¬Astray names ds₀ (findeol s)) :
    AtopSim names K ds₀ [] (findeol s) (findeol t) := by
  have h₀ : AtopSim names K ds₀ hs { s with parsebuf := none } { t with parsebuf := none } :=
    ⟨⟨h.atop.files, rfl, h.atop.pushback, h.atop.symhead, h.atop.val⟩, h.since, h.range⟩
  have hgood' : ¬Astray names ds₀ (Parse.skip (· ≠ ch '\n') { s with parsebuf := none }).2 := by
    intro hb
    apply hgood
    simp only [Parse.findeol]
    split
    · exact hb.of_same rfl rfl rfl
    · exact hb
  obtain ⟨heq, h'⟩ := h₀.skip _ hgood'
  simp only [Parse.findeol, heq]
  split
  · exact h'.congr (f := nextLine) fun _ => ⟨rfl, rfl, rfl, rfl, rfl, rfl⟩
  · exact h'

/-- A macro that only the second table has leads the first lexer astray. -/
theorem Atop.symget (h : Atop names K s t) {nam : CStr} (hsince : Since ds₀ s)
    (hgood : symget nam s = none → ¬Astray names ds₀ (lexError (.macroNotDefined nam) s).2) :
    symget nam t = symget nam s := by
  cases hfind : s.symhead.find? (fun sym => sym.nam = nam) with
  | some sym => rw [Parse.symget, Parse.symget, hfind, h.symhead.kept nam sym hfind]
  | none =>
      cases hfind' : t.symhead.find? (fun sym => sym.nam = nam) with
      | none => rw [Parse.symget, Parse.symget, hfind, hfind']
      | some sym =>
          have hmem := (h.symhead.extra nam sym hfind hfind').1
          refine absurd ?_ (hgood (by rw [Parse.symget, hfind]; rfl))
          obtain ⟨ds, hds⟩ := hsince
          apply lexKeeps_astray.findeol
          exact ⟨⟨s.file.name, s.lineno, .macroNotDefined nam⟩ :: ds, congrArg _ hds,
            .inl ⟨_, List.mem_cons_self, nam, hmem, rfl⟩⟩

theorem lexSim_atopSim : LexSim (Astray names ds₀) (AtopSim names K ds₀) where
  keeps := lexKeeps_astray
  lgetc quotec hq h hgood := h.lgetc hq hgood
  lungetc h _ := ⟨h.atop.lungetc _, lexKeeps_since.lungetc _ _ h.since,
    fun c hc => h.range c (List.mem_cons_of_mem _ hc)⟩
  findeol h hgood := h.findeol hgood
  yyerror m h := ⟨h.atop.yyerror m, lexKeeps_since.yyerror m _ h.since, h.range⟩
  nextLine h := h.congr fun _ => ⟨rfl, rfl, rfl, rfl, rfl, rfl⟩
  startLine h :=
    h.congr (f := fun s => { s with lineno := s.file.lineno })
      fun _ => ⟨rfl, rfl, rfl, rfl, rfl, rfl⟩
  val v h := ⟨⟨h.atop.files, h.atop.parsebuf, h.atop.pushback, h.atop.symhead, .inr rfl⟩,
    h.since, h.range⟩
  symget nam h hgood := h.atop.symget h.since hgood
  parsebuf h := by rw [h.atop.parsebuf]
  startMacro val h _ _ := ⟨⟨h.atop.files, rfl, h.atop.pushback, h.atop.symhead, h.atop.val⟩,
    h.since, by simp⟩
  range h := h.range _ List.mem_cons_self
  forget := by
    intro hs hs' s t h
    exact ⟨h.atop, h.since, fun c hc => h.range c (List.mem_append_left _ hc)⟩

end Atop

end Ifconfigd.Parse
