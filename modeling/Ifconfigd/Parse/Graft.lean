import Ifconfigd.Parse.Above
import Ifconfigd.Parse.Lines

/-!
# Two texts with a common beginning

Two configuration files that begin alike are parsed alike as long as only their common
beginning is read. Nothing of the rest was looked at if none of it was read, so the parsers
are abreast until the first of them begins to read it.
-/

namespace Ifconfigd.Parse

open CLib Yacc

/-! ## Reading the common beginning -/

/-- The last of the open files has the rest `tail` or `tail'` after the same characters. -/
inductive Grafted (tail tail' : List Byte) : List File → List File → Prop
  | intro {f f' : File} (ahead : List Byte) (hrest : f.rest = ahead ++ tail)
      (hrest' : f'.rest = ahead ++ tail') (herrors : f'.errors = 0 ↔ f.errors = 0) :
      Grafted tail tail' [f] [f']

/-- Some of the last `n` characters of the last of the open files were read. -/
def ReadsLast (n : Nat) : List File → Prop
  | [] => False
  | f :: prev => (rootFile f prev).rest.length < n

theorem lexKeeps_readsLast (n : Nat) : LexKeeps fun s => ReadsLast n s.files where
  lgetc quotec s h := Nat.lt_of_le_of_lt
    ((lexKeeps_rest s.root.rest).lgetc quotec s List.suffix_rfl).length_le h
  lungetc c s h := Nat.lt_of_le_of_lt
    ((lexKeeps_rest s.root.rest).lungetc c s List.suffix_rfl).length_le h
  yyerror m s h := Nat.lt_of_le_of_lt
    ((lexKeeps_rest s.root.rest).yyerror m s List.suffix_rfl).length_le h
  endMacro _ h := h
  nextLine s h := Nat.lt_of_le_of_lt
    ((lexKeeps_rest s.root.rest).nextLine s List.suffix_rfl).length_le h
  lineno _ _ h := h
  startMacro _ _ _ h _ := h
  val _ _ h := h

section Grafted

variable {tail tail' : List Byte}

theorem joinLines_lt {rest : List Byte} (hrest : rest ≠ []) (fl vl : Nat) :
    (joinLines rest fl vl).2.1.length < rest.length := by
  have hlen := joinLines_length rest fl vl
  cases hb : (joinLines rest fl vl).1 with
  | none =>
      rw [joinLines_none hb]
      exact List.length_pos_iff.2 hrest
  | some b =>
      rw [hb, Option.toList_some, List.length_singleton] at hlen
      omega

theorem joinLines_escaped {next : Byte} (hnext : next ≠ 10) (rest : List Byte) (fl vl : Nat) :
    joinLines (92 :: next :: rest) fl vl = (some next, rest, fl, vl) := by
  rw [joinLines.eq_def]
  exact if_pos hnext

theorem joinLines_continued (rest : List Byte) (fl vl : Nat) :
    joinLines (92 :: 10 :: rest) fl vl = joinLines rest (fl + 1) fl := by
  rw [joinLines.eq_def]
  rfl

/-- A character that was found without reading any of the tail. -/
theorem joinLines_graft (htail : tail ≠ []) :
    ∀ (ahead : List Byte) (fl vl fl' vl' : Nat),
      tail.length ≤ (joinLines (ahead ++ tail) fl vl).2.1.length →
      ∃ b ahead', (joinLines (ahead ++ tail) fl vl).1 = some b ∧
        (joinLines (ahead ++ tail) fl vl).2.1 = ahead' ++ tail ∧
        (joinLines (ahead ++ tail') fl' vl').1 = some b ∧
        (joinLines (ahead ++ tail') fl' vl').2.1 = ahead' ++ tail'
  | [], fl, vl, _, _, hgood => absurd (joinLines_lt htail fl vl) (Nat.not_lt.2 hgood)
  | [b], fl, vl, fl', vl', hgood => by
      by_cases hb : b = 92
      · subst hb
        obtain ⟨next, rest, rfl⟩ := List.exists_cons_of_ne_nil htail
        by_cases hnext : next = 10
        · subst hnext
          have hlen := joinLines_length rest (fl + 1) fl
          rw [List.singleton_append, joinLines_continued, List.length_cons] at hgood
          omega
        · rw [List.singleton_append, joinLines_escaped hnext, List.length_cons] at hgood
          simp only at hgood
          omega
      · rw [List.singleton_append, List.singleton_append, joinLines_of_ne hb, joinLines_of_ne hb]
        exact ⟨b, [], rfl, rfl, rfl, rfl⟩
  | b :: next :: ahead, fl, vl, fl', vl', hgood => by
      simp only [List.cons_append] at hgood ⊢
      by_cases hb : b = 92
      · subst hb
        by_cases hnext : next = 10
        · subst hnext
          rw [joinLines_continued] at hgood
          rw [joinLines_continued, joinLines_continued]
          exact joinLines_graft htail ahead _ _ _ _ hgood
        · rw [joinLines_escaped hnext, joinLines_escaped hnext]
          exact ⟨next, ahead, rfl, rfl, rfl, rfl⟩
      · rw [joinLines_of_ne hb, joinLines_of_ne hb]
        exact ⟨b, next :: ahead, rfl, rfl, rfl, rfl⟩

theorem Grafted.cases {s t : Lex} (h : Grafted tail tail' s.files t.files) :
    s.prev = [] ∧ t.prev = [] ∧ (t.file.errors = 0 ↔ s.file.errors = 0) ∧
      ∃ ahead, s.file.rest = ahead ++ tail ∧ t.file.rest = ahead ++ tail' := by
  obtain ⟨sf, sprev, _, _, _, _, _, _⟩ := s
  obtain ⟨tf, tprev, _, _, _, _, _, _⟩ := t
  cases h with
  | intro ahead hrest hrest' herrors => exact ⟨rfl, rfl, herrors, ahead, hrest, hrest'⟩

theorem getcJoined_of_root {s : Lex} (hprev : s.prev = []) :
    (getcJoined s).1 =
        ((joinLines s.file.rest s.file.lineno s.lineno).1.map uchar).getD eof ∧
      (getcJoined s).2.files = [{ s.file with
        rest := (joinLines s.file.rest s.file.lineno s.lineno).2.1
        lineno := (joinLines s.file.rest s.file.lineno s.lineno).2.2.1 }] := by
  simp only [getcJoined]
  split
  · next b hb => simp only [hb, Lex.files, hprev, Option.map_some, Option.getD_some, and_self]
  · next hb =>
      simp only [hb, hprev, popWhileEof, Lex.files, Option.map_none, Option.getD_none, and_self]

theorem baseSim_grafted (htail : tail ≠ []) :
    BaseSim (ReadsLast tail.length) (Grafted tail tail') where
  keeps := lexKeeps_readsLast tail.length
  empty h := by
    cases h
    simp
  joined {s t} h hgood := by
    obtain ⟨hprev, hprev', herrors, ahead, hrest, hrest'⟩ := h.cases
    obtain ⟨hchar, hfiles⟩ := getcJoined_of_root hprev
    obtain ⟨hchar', hfiles'⟩ := getcJoined_of_root hprev'
    rw [hfiles, hrest] at hgood
    obtain ⟨b, ahead', hb, hleft, hb', hleft'⟩ := @joinLines_graft tail tail' htail ahead
      s.file.lineno s.lineno t.file.lineno t.lineno (Nat.le_of_not_lt hgood)
    rw [hchar, hchar', hfiles, hfiles', hrest, hrest', hb, hb']
    exact ⟨rfl, .base (.intro ahead' hleft hleft' herrors)⟩
  quoted {s t} quotec h hgood := by
    obtain ⟨hprev, hprev', herrors, ahead, hrest, hrest'⟩ := h.cases
    cases ahead with
    | nil =>
        obtain ⟨b, rest, rfl⟩ := List.exists_cons_of_ne_nil htail
        rw [List.nil_append] at hrest
        refine absurd ?_ hgood
        simp only [getcQuoted, hrest, Lex.files, hprev]
        exact Nat.lt_succ_self _
    | cons b ahead =>
        rw [List.cons_append] at hrest hrest'
        simp only [getcQuoted, hrest, hrest', Lex.files, hprev, hprev']
        exact ⟨trivial, .base (.intro ahead rfl rfl herrors)⟩
  pop {f f' files files'} hf h hrest hgood := by
    cases h with
    | @intro g g' ahead hg hg' herrors =>
        have hadd : g'.errors + f'.errors = 0 ↔ g.errors + f.errors = 0 := by
          have := hf.errors
          omega
        cases ahead with
        | nil =>
            obtain ⟨b, rest, rfl⟩ := List.exists_cons_of_ne_nil htail
            rw [List.nil_append] at hg
            refine absurd ?_ hgood
            simp only [popWhileEof, hg]
            exact Nat.lt_succ_self _
        | cons b ahead =>
            rw [List.cons_append] at hg hg'
            simp only [popWhileEof, hg, hg']
            exact ⟨trivial, .base (.intro ahead rfl rfl hadd)⟩
  add h he := by
    cases h with
    | intro ahead hrest hrest' herrors => exact .intro ahead hrest hrest' (by simp only; omega)
  addFirst h herr := by
    cases h with
    | intro ahead hrest hrest' herrors => exact .intro ahead hrest hrest' (by simp only; omega)
  addSecond h herr := by
    cases h with
    | intro ahead hrest hrest' herrors => exact .intro ahead hrest hrest' (by simp only; omega)
  lineno n n' h := by
    cases h with
    | intro ahead hrest hrest' herrors => exact .intro ahead hrest hrest' herrors

end Grafted

/-! ## Parsers on the common beginning -/

theorem client_keeps_readsLast (fs : FileSystem) (n : Nat) :
    (client fs).Keeps fun y => ReadsLast n y.lex.files where
  lex y h := (lexKeeps_readsLast n).yylex h
  action m vs y h := by
    refine (action_lexEffect fs m vs (defaultVal m vs) y).mono fun z he => ?_
    cases he with
    | same hlex => rwa [hlex]
    | report msg hlex =>
        rw [hlex]
        exact (lexKeeps_readsLast n).yyerror msg _ h
    | grammarError _ hlex =>
        rw [hlex]
        exact Nat.lt_of_le_of_lt (@rootFile_suffix y.lex.file
          { y.lex.file with errors := y.lex.file.errors + 1 } List.suffix_rfl _).length_le h
    | «include» _ name nfile _ hlex =>
        rw [hlex]
        refine (lexKeeps_readsLast n).lungetc _ _ ?_
        change (rootFile nfile (y.lex.file :: y.lex.prev)).rest.length < n
        rwa [rootFile_cons]
    | varset _ nam val hlex => rwa [hlex]
  syntaxError y h := (lexKeeps_readsLast n).yyerror _ y.lex h
  overflow y h := (lexKeeps_readsLast n).yyerror _ y.lex h

section Grafted

variable {tail tail' : List Byte}

theorem Grafted.length {files files' : List File} (h : Above (Grafted tail tail') files files') :
    files'.length = files.length := by
  induction h with
  | base h =>
      cases h
      rfl
  | file _ _ ih => rw [List.length_cons, List.length_cons, ih]

/-- As long as nothing of the tail was read, the other parser follows. -/
theorem Together.reaches_grafted {fs fs' : FileSystem} {p q p' : State Token Val Yy}
    (htail : tail ≠ []) (hfs : SameIncludes fs fs') (h : Together (Above (Grafted tail tail')) p q)
    (hreach : Reaches tables (client fs) p p')
    (hunread : ¬ReadsLast tail.length p'.client.lex.files) :
    ∃ q', Reaches tables (client fs') q q' ∧ Together (Above (Grafted tail tail')) p' q' :=
  h.reaches (filesSim_above (baseSim_grafted htail)) (filesActs_above (baseSim_grafted htail)) hfs
    (client_keeps_readsLast fs tail.length) Grafted.length hreach hunread

end Grafted

end Ifconfigd.Parse
