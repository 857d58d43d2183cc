import Ifconfigd.Parse.Tracking

/-!
# Progress of the lexer

What a call of `yylex` that returns a token does to its input: it reads something of a
file, or leaves files with nothing pending, or takes something from the pushback buffer
or the macro text. In the last case the macro text may be longer than before; then a
dollar sign was taken from the pushback buffer, and none is ever put there that was not
read from there or from a file.
-/

namespace Ifconfigd.Parse

open CLib Levels

/-! ## Where `lgetc` reads -/

/-- `lgetc` got to the files and returned `c`. -/
def FromFiles (quotec c : Int) (l l' : List Nat) : Prop :=
  Read l' l ∨ (Dropped l' l ∧ (c = eof ∨ quotec ≠ 0 ∧ c = quotec)) ∨ (l' = l ∧ c = eof)

theorem popWhileEof_levels {prev : List File} (hprev : prev ≠ []) (f : File) (n : Nat) :
    let r := popWhileEof f prev
    let l' := r.2.1.rest.length :: r.2.2.map fun f => f.rest.length
    let l := n :: prev.map fun f => f.rest.length
    Read l' l ∨ Dropped l' l ∧ r.1 = eof := by
  fun_induction popWhileEof f prev generalizing n with
  | case1 f => exact absurd rfl hprev
  | case2 f p ps hrest ih =>
      cases ps with
      | nil => exact .inr ⟨⟨[n], by simp, by simp [popWhileEof, hrest]⟩, rfl⟩
      | cons q ps =>
          rcases ih (by simp) p.rest.length with hread | ⟨hdropped, heof⟩
          · exact .inl (Dropped.read ⟨[n], by simp, by simp⟩ hread)
          · exact .inr ⟨Dropped.trans ⟨[n], by simp, by simp⟩ hdropped, heof⟩
  | case3 f p ps b rest hrest =>
      exact .inl ⟨[n], rest.length, p.rest.length, _, rfl, rfl, by simp [hrest]⟩

theorem getcJoined_levels (s : Lex) :
    FromFiles 0 (getcJoined s).1 s.levels (getcJoined s).2.levels := by
  have hjoin := joinLines_length s.file.rest s.file.lineno s.lineno
  simp only [getcJoined]
  split
  · next b hb =>
      simp only [hb, Option.toList_some, List.length_singleton] at hjoin
      exact .inl ⟨[], _, s.file.rest.length, _, rfl, rfl, by dsimp only; omega⟩
  · next hb =>
      by_cases hprev : s.prev = []
      · simp only [hprev, popWhileEof]
        have hrest : (joinLines s.file.rest s.file.lineno s.lineno).2.1 = [] :=
          joinLines_none hb
        by_cases hempty : s.file.rest = []
        · refine .inr (.inr ⟨?_, rfl⟩)
          rw [hempty] at hrest
          simp [Lex.levels, hprev, hrest, hempty]
        · refine .inl ⟨[], 0, s.file.rest.length, [], ?_, by simp [Lex.levels, hprev], ?_⟩
          · simp [Lex.levels, hrest]
          · exact List.length_pos_iff.2 hempty
      · rcases popWhileEof_levels hprev _ s.file.rest.length with hread | ⟨hdropped, heof⟩
        · exact .inl hread
        · exact .inr (.inl ⟨hdropped, .inl heof⟩)

theorem getcQuoted_levels {quotec : Int} (hq : quotec ≠ 0) (s : Lex) :
    FromFiles quotec (getcQuoted quotec s).1 s.levels (getcQuoted quotec s).2.levels := by
  simp only [getcQuoted]
  split
  · next b rest hrest =>
      exact .inl ⟨[], rest.length, s.file.rest.length, _, rfl, rfl, by simp [hrest]⟩
  · next hrest =>
      cases hprev : s.prev with
      | nil =>
          simp only [popfile, yyerror, hprev]
          exact .inr (.inr ⟨by simp [Lex.levels, hprev], rfl⟩)
      | cons p ps =>
          simp only [popfile, yyerror, hprev]
          refine .inr (.inl ⟨⟨[s.file.rest.length], by simp, ?_⟩, .inr ⟨hq, rfl⟩⟩)
          simp [Lex.levels, hprev]

/-- The macro text is read from its beginning on. -/
def Begun (s : Lex) : Prop := ∀ text i, s.parsebuf = some ⟨text, i⟩ → 0 ≤ i

/-- Nothing is pending outside the files. -/
def Quiet (s : Lex) : Prop := s.pushback = [] ∧ s.parsebuf = none

instance (s : Lex) : Decidable (Quiet s) := inferInstanceAs (Decidable (_ ∧ _))

/-- Where a character comes from. -/
inductive Origin (quotec : Int) (s : Lex) : Int → Lex → Prop
  | macroText {text : CStr} {i : Int} (b : Byte) (hbuf : s.parsebuf = some ⟨text, i⟩) :
      Origin quotec s (schar b) { s with parsebuf := some ⟨text, i + 1⟩ }
  | pushed {b : Byte} {rest : List Byte} (hpush : s.pushback = b :: rest) :
      Origin quotec s (schar b) { s with pushback := rest, parsebuf := none }
  | file {c : Int} {s' : Lex} (hpush : s.pushback = []) (hquiet : Quiet s')
      (hfiles : FromFiles quotec c s.levels s'.levels) : Origin quotec s c s'

theorem lgetcInput_origin {quotec : Int} {s : Lex} (hbuf : s.parsebuf = none) :
    Origin quotec s (lgetcInput quotec s).1 (lgetcInput quotec s).2 := by
  cases hpush : s.pushback with
  | cons b rest =>
      have hget : lgetcInput quotec s =
          (schar b, { s with pushback := rest, parsebuf := none }) := by
        rw [lgetcInput.eq_def, hpush, ← hbuf]
      rw [hget]
      exact .pushed hpush
  | nil =>
      have hbuf' : (lgetcInput quotec s).2.parsebuf = none := by rw [lgetcInput_parsebuf, hbuf]
      by_cases hq : quotec = 0
      · subst hq
        have hget : lgetcInput 0 s = getcJoined s := by
          rw [lgetcInput.eq_def, hpush]
          simp
        rw [hget] at hbuf' ⊢
        refine .file hpush ⟨?_, hbuf'⟩ (getcJoined_levels s)
        simp only [getcJoined]
        split <;> exact hpush
      · have hget : lgetcInput quotec s = getcQuoted quotec s := by
          rw [lgetcInput.eq_def, hpush]
          simp [hq]
        rw [hget] at hbuf' ⊢
        refine .file hpush ⟨?_, hbuf'⟩ (getcQuoted_levels hq s)
        simp only [getcQuoted]
        split
        · exact hpush
        · simp only [popfile, yyerror]
          split
          · exact hpush
          · next heq =>
              split at heq
              · cases heq
              · cases heq
                exact hpush

theorem lgetc_origin {quotec : Int} {s : Lex} (h : Begun s) :
    Origin quotec s (lgetc quotec s).1 (lgetc quotec s).2 := by
  cases hbuf : s.parsebuf with
  | none =>
      have hget : lgetc quotec s = lgetcInput quotec s := by rw [lgetc.eq_def, hbuf]
      rw [hget]
      exact lgetcInput_origin hbuf
  | some buf =>
      obtain ⟨text, i⟩ := buf
      have hi := h text i hbuf
      cases hb : text.bytes[i.toNat]? with
      | some b =>
          have hget : lgetc quotec s = (schar b, { s with parsebuf := some ⟨text, i + 1⟩ }) := by
            simp only [lgetc, hbuf, if_pos hi, hb]
          rw [hget]
          exact .macroText b hbuf
      | none =>
          have hget : lgetc quotec s = lgetcInput quotec { s with parsebuf := none } := by
            simp only [lgetc, hbuf, if_pos hi, hb]
          rw [hget]
          have horigin := @lgetcInput_origin quotec { s with parsebuf := none } rfl
          generalize lgetcInput quotec { s with parsebuf := none } = r at horigin
          obtain ⟨c, s'⟩ := r
          cases horigin with
          | macroText b hbuf' => cases hbuf'
          | pushed hpush => exact .pushed hpush
          | file hpush hquiet hfiles => exact .file hpush hquiet hfiles

/-! ## The accounts -/

/-- Every character that can be pushed back has its place in the macro text. -/
def Roomy (hs : List Int) (s : Lex) : Prop :=
  ∀ text i, s.parsebuf = some ⟨text, i⟩ → (hs.length : Int) ≤ i

theorem Roomy.begun {hs : List Int} {s : Lex} (h : Roomy hs s) : Begun s :=
  fun text i hbuf => Int.le_trans (Int.natCast_nonneg _) (h text i hbuf)

/-- The dollar signs in the pushback buffer. -/
def dollars (s : Lex) : Nat := s.pushback.count 36

/-- The last character is a dollar sign, and would be put into the pushback buffer. -/
def spareDollar (hs : List Int) (s : Lex) : Nat :=
  if s.parsebuf = none ∧ hs.head?.map toByte = some 36 then 1 else 0

/-- What became of the input since it was `l`, with `n` dollar signs pushed back. -/
inductive Moved (l : List Nat) (n : Nat) (hs : List Int) (s : Lex) : Prop
  | pending (hlevels : s.levels = l) (hdollars : dollars s + spareDollar hs s ≤ n)
  | read (hread : Read s.levels l)
  | dropped (hdropped : Dropped s.levels l) (hquiet : Quiet s) (hnone : hs = [])

theorem recent_length_le (quotec c : Int) (hs : List Int) :
    (recent quotec c hs).length ≤ hs.length + 1 := by
  rw [recent]
  split <;> simp

@[simp] theorem spareDollar_nil (s : Lex) : spareDollar [] s = 0 := by simp [spareDollar]

theorem spareDollar_of_buf {s : Lex} {buf : Parsebuf} (h : s.parsebuf = some buf)
    (hs : List Int) : spareDollar hs s = 0 := by
  simp [spareDollar, h]

theorem spareDollar_digits {hs : List Int} (h : ∀ x ∈ hs, IsDigit x) (s : Lex) :
    spareDollar hs s = 0 := by
  cases hs with
  | nil => exact spareDollar_nil s
  | cons x hs =>
      obtain ⟨hlo, hhi⟩ := h x List.mem_cons_self
      have hne : toByte x ≠ 36 := by
        intro heq
        have := schar_toByte (c := x) (by omega) (by omega)
        rw [heq, show schar 36 = 36 by decide] at this
        omega
      simp [spareDollar, hne]

theorem spareDollar_recent_le (quotec : Int) (b : Byte) (hs : List Int) (s : Lex) :
    spareDollar (recent quotec (schar b) hs) s ≤ if b = 36 then 1 else 0 := by
  rw [recent]
  split
  · simp
  · simp only [spareDollar, List.head?_cons, Option.map_some, toByte_schar, Option.some.injEq]
    split_ifs <;> simp_all

theorem Origin.roomy {quotec c : Int} {s s' : Lex} (h : Origin quotec s c s') {hs : List Int}
    (hroom : Roomy hs s) : Roomy (recent quotec c hs) s' := by
  have hlen := recent_length_le quotec c hs
  intro text i hbuf'
  cases h with
  | macroText b hbuf =>
      have hi := hroom _ _ hbuf
      cases hbuf'
      omega
  | pushed hpush => cases hbuf'
  | file hpush hquiet hfiles => rw [hquiet.2] at hbuf'; cases hbuf'

theorem Origin.moved {quotec c : Int} {s s' : Lex} (h : Origin quotec s c s') {l : List Nat}
    {n : Nat} {hs : List Int} (hmoved : Moved l n hs s) : Moved l n (recent quotec c hs) s' := by
  cases h with
  | macroText b hbuf =>
      cases hmoved with
      | pending hlevels hdollars =>
          refine .pending hlevels ?_
          rw [spareDollar_of_buf rfl]
          exact Nat.le_trans (Nat.le_add_right _ _) hdollars
      | read hread => exact .read hread
      | dropped hdropped hquiet => rw [hquiet.2] at hbuf; cases hbuf
  | @pushed b rest hpush =>
      cases hmoved with
      | pending hlevels hdollars =>
          have hspare := spareDollar_recent_le quotec b hs
            { s with pushback := rest, parsebuf := none }
          refine .pending hlevels ?_
          simp only [dollars, hpush, List.count_cons, beq_iff_eq] at hdollars ⊢
          omega
      | read hread => exact .read hread
      | dropped hdropped hquiet => rw [hquiet.1] at hpush; cases hpush
  | file hpush hquiet' hfiles =>
      rcases hfiles with hread' | ⟨hdropped', hend⟩ | ⟨hsame, hend⟩
      · cases hmoved with
        | pending hlevels hdollars => exact .read (hlevels ▸ hread')
        | read hread => exact .read (hread.trans hread')
        | dropped hdropped hquiet hnone => exact .read (hdropped.read hread')
      · have hnil : recent quotec c hs = [] := if_pos hend
        cases hmoved with
        | pending hlevels hdollars => exact .dropped (hlevels ▸ hdropped') hquiet' hnil
        | read hread => exact .dropped (hread.dropped hdropped') hquiet' hnil
        | dropped hdropped hquiet hnone => exact .dropped (hdropped.trans hdropped') hquiet' hnil
      · have hnil : recent quotec c hs = [] := if_pos (.inl hend)
        cases hmoved with
        | pending hlevels hdollars =>
            refine .pending (hsame.trans hlevels) ?_
            rw [hnil, spareDollar_nil, dollars, hquiet'.1]
            exact Nat.zero_le n
        | read hread => exact .read (hsame ▸ hread)
        | dropped hdropped hquiet hnone => exact .dropped (hsame ▸ hdropped) hquiet' hnil

theorem roomy_lungetc {c : Int} {hs : List Int} {s : Lex} (h : Roomy (c :: hs) s) :
    Roomy hs (lungetc c s) := by
  intro text i hbuf'
  simp only [lungetc, lungetc.push] at hbuf'
  split at hbuf'
  · have := h text i hbuf'
    rw [List.length_cons] at this
    omega
  · split at hbuf'
    · next hnone => split at hbuf' <;> simp [hnone] at hbuf'
    · next text' i' hbuf =>
        have := h text' i' hbuf
        rw [List.length_cons] at this
        rw [if_pos (by omega)] at hbuf'
        cases hbuf'
        omega

theorem dollars_push_le (c : Int) (s : Lex) :
    dollars (lungetc.push c s) ≤ dollars s + if toByte c = 36 then 1 else 0 := by
  simp only [lungetc.push]
  split
  · simp [dollars, List.count_cons]
  · exact Nat.le_add_right _ _

theorem lungetc_levels (c : Int) (s : Lex) : (lungetc c s).levels = s.levels := by
  have hpush : ∀ s : Lex, (lungetc.push c s).levels = s.levels := by
    intro s
    rw [lungetc.push]
    split <;> rfl
  rw [lungetc]
  split
  · rfl
  · split
    · exact hpush s
    · dsimp only
      split
      · rfl
      · exact hpush _

/-- Pushing back the last character puts no other dollar sign into the buffer. -/
theorem dollars_lungetc_le {c : Int} (hc : c ≠ eof) {hs : List Int} {s : Lex}
    (h : Roomy (c :: hs) s) :
    dollars (lungetc c s) ≤ dollars s + spareDollar (c :: hs) s := by
  cases hbuf : s.parsebuf with
  | none =>
      have hunget : lungetc c s = lungetc.push c s := by rw [lungetc, if_neg hc, hbuf]
      have hspare : spareDollar (c :: hs) s = if toByte c = 36 then 1 else 0 := by
        simp [spareDollar, hbuf]
      rw [hunget, hspare]
      exact dollars_push_le c s
  | some buf =>
      obtain ⟨text, i⟩ := buf
      have hi := h text i hbuf
      rw [List.length_cons] at hi
      have hunget : lungetc c s = { s with parsebuf := some ⟨text, i - 1⟩ } := by
        rw [lungetc, if_neg hc, hbuf]
        exact if_pos (by omega)
      rw [hunget]
      exact Nat.le_add_right _ _

theorem moved_lungetc {l : List Nat} {n : Nat} {c : Int} (hc : c ≠ eof) {hs : List Int}
    (hdigits : ∀ x ∈ hs, IsDigit x) {s : Lex} (hroom : Roomy (c :: hs) s)
    (h : Moved l n (c :: hs) s) : Moved l n hs (lungetc c s) := by
  have hlevels' := lungetc_levels c s
  cases h with
  | pending hlevels hdollars =>
      refine .pending (hlevels'.trans hlevels) ?_
      rw [spareDollar_digits hdigits]
      exact Nat.le_trans (dollars_lungetc_le hc hroom) hdollars
  | read hread => exact .read (hlevels' ▸ hread)
  | dropped _ _ hnone => cases hnone

theorem moved_forget {l : List Nat} {n : Nat} (hs : List Int) {hs' : List Int} {s : Lex}
    (h : Moved l n (hs ++ hs') s) : Moved l n hs s := by
  cases h with
  | pending hlevels hdollars =>
      refine .pending hlevels (Nat.le_trans (Nat.add_le_add_left ?_ _) hdollars)
      cases hs with
      | nil => simp
      | cons => exact Nat.le_refl _
  | read hread => exact .read hread
  | dropped hdropped hquiet hnone =>
      exact .dropped hdropped hquiet (List.append_eq_nil_iff.1 hnone).1

theorem moved_same {l : List Nat} {n : Nat} {hs : List Int} {s s' : Lex} (h : Moved l n hs s)
    (hlevels' : s'.levels = s.levels) (hbuf : s'.parsebuf = s.parsebuf)
    (hpush : s'.pushback = s.pushback) : Moved l n hs s' := by
  cases h with
  | pending hlevels hdollars =>
      refine .pending (hlevels'.trans hlevels) ?_
      rwa [dollars, spareDollar, hbuf, hpush]
  | read hread => exact .read (hlevels' ▸ hread)
  | dropped hdropped hquiet hnone =>
      exact .dropped (hlevels' ▸ hdropped) ⟨hpush ▸ hquiet.1, hbuf ▸ hquiet.2⟩ hnone

/-- The account of the files and of the dollar signs. -/
def Account (l : List Nat) (n : Nat) (hs : List Int) (s : Lex) : Prop :=
  Roomy hs s ∧ Moved l n hs s

theorem account_tracks (l : List Nat) (n : Nat) : LexTracks (Account l n) where
  lgetc quotec _ h :=
    ⟨(lgetc_origin h.1.begun).roomy h.1, (lgetc_origin h.1.begun).moved h.2⟩
  lungetc hc hdigits h := ⟨roomy_lungetc h.1, moved_lungetc hc hdigits h.1 h.2⟩
  forget hs _ _ h := by
    refine ⟨fun text i hbuf => ?_, moved_forget hs h.2⟩
    have := h.1 text i hbuf
    rw [List.length_append] at this
    omega
  endMacro h := by
    refine ⟨fun _ _ hbuf => (by cases hbuf), ?_⟩
    cases h.2 with
    | pending hlevels hdollars => exact .pending hlevels (by rwa [spareDollar_nil] at hdollars ⊢)
    | read hread => exact .read hread
    | dropped hdropped hquiet hnone => exact .dropped hdropped ⟨hquiet.1, rfl⟩ hnone
  same h hlevels hbuf hpush :=
    ⟨fun text i hbuf' => h.1 text i (hbuf ▸ hbuf'), moved_same h.2 hlevels hbuf hpush⟩

theorem inputSize_eq (s : Lex) :
    s.inputSize + 1 = Levels.total s.levels + s.pushback.length := by
  simp only [Lex.inputSize, Levels.total, Lex.levels, List.map_cons, List.sum_cons, List.map_map,
    Function.comp_def]
  omega

theorem size_eq {s s' : Lex} (hlevels : s'.levels = s.levels) (hbuf : s'.parsebuf = s.parsebuf)
    (hpush : s'.pushback = s.pushback) : s'.size = s.size := by
  have h := inputSize_eq s
  have h' := inputSize_eq s'
  rw [hlevels, hpush] at h'
  simp only [Lex.size, Lex.macroSize, hbuf]
  omega

/-- The account of the size of the input. -/
theorem size_tracks (bound : Nat) : LexTracks fun hs s => s.size + hs.length ≤ bound where
  lgetc := by
    intro hs s quotec _ h
    have hsize := lgetc_size quotec s
    rw [recent]
    split
    · rw [List.length_nil]
      omega
    · next hc =>
        rw [taken_of_ne (not_or.1 hc).1] at hsize
        rw [List.length_cons]
        omega
  lungetc := by
    intro c hs s _ _ h
    have := lungetc_size c s
    rw [List.length_cons] at h
    omega
  forget := by
    intro hs hs' s h
    rw [List.length_append] at h
    omega
  endMacro := by
    intro s h
    refine Nat.le_trans ?_ h
    simp only [Lex.size, Lex.inputSize, Lex.macroSize]
    omega
  same h hlevels hbuf hpush := by rwa [size_eq hlevels hbuf hpush]

/-! ## Tokens -/

/-- The place in the macro text is at most one step before its beginning, and then a
character is pushed back. -/
def Poised (s : Lex) : Prop :=
  ∀ text i, s.parsebuf = some ⟨text, i⟩ → 0 ≤ i ∨ i = -1 ∧ s.pushback ≠ []

theorem Poised.begun_or {s : Lex} (h : Poised s) :
    Begun s ∨ ∃ text b rest, s.pushback = b :: rest ∧
      lgetc 0 s = (schar b, { s with pushback := rest, parsebuf := some ⟨text, 0⟩ }) := by
  cases hbuf : s.parsebuf with
  | none => exact .inl fun _ _ hbuf' => by rw [hbuf] at hbuf'; cases hbuf'
  | some buf =>
      obtain ⟨text, i⟩ := buf
      rcases h text i hbuf with hi | ⟨rfl, hne⟩
      · refine .inl fun _ _ hbuf' => ?_
        rw [hbuf] at hbuf'
        cases hbuf'
        exact hi
      · obtain ⟨b, rest, hpush⟩ := List.exists_cons_of_ne_nil hne
        exact .inr ⟨text, b, rest, hpush, by simp [lgetc, hbuf, lgetcInput, hpush]⟩

theorem account_self {s : Lex} (h : Begun s) : Account s.levels (dollars s) [] s :=
  ⟨fun text i hbuf => h text i hbuf, .pending rfl (by simp)⟩

/-- After the first character the macro text is read from its beginning on. -/
theorem Poised.account_lgetc {s : Lex} (h : Poised s) :
    Account s.levels (dollars s) [] (lgetc 0 s).2 := by
  rcases h.begun_or with hbegun | ⟨text, b, rest, hpush, hget⟩
  · exact (account_tracks _ _).get (.inl rfl) (account_self hbegun)
  · rw [hget]
    refine ⟨fun _ _ hbuf => (by cases hbuf; simp), .pending rfl ?_⟩
    simp only [dollars, hpush, spareDollar_nil, List.count_cons]
    omega

theorem Poised.account_skip {s : Lex} (h : Poised s) (p : Int → Bool) :
    Account s.levels (dollars s) [] (skip p s).2 ∧
      ((skip p s).1 ≠ eof → (skip p s).2.parsebuf = none →
        Account s.levels (dollars s) [(skip p s).1] (skip p s).2) := by
  have htracks := account_tracks s.levels (dollars s)
  rw [skip]
  split
  · obtain ⟨hall, hone⟩ := htracks.skip p h.account_lgetc
    exact ⟨hall, fun hne _ => hone hne⟩
  · refine ⟨h.account_lgetc, fun hne hnone => ?_⟩
    rcases h.begun_or with hbegun | ⟨text, b, rest, hpush, hget⟩
    · exact htracks.got (account_self hbegun) hne
    · rw [hget] at hnone
      cases hnone

theorem Poised.account_lexStart {s : Lex} (h : Poised s) :
    Account s.levels (dollars s) [] (lexStart s).2 ∧
      ((lexStart s).1 ≠ eof → (lexStart s).2.parsebuf = none →
        Account s.levels (dollars s) [(lexStart s).1] (lexStart s).2) := by
  have htracks := account_tracks s.levels (dollars s)
  obtain ⟨hall, hone⟩ := h.account_skip isBlank
  simp only [lexStart]
  split_ifs
  · exact And.imp_right (fun hskip hne _ => hskip hne)
      (htracks.skip _ (htracks.same hall rfl rfl rfl))
  · exact ⟨htracks.same hall rfl rfl rfl,
      fun hne hnone => htracks.same (hone hne hnone) rfl rfl rfl⟩

theorem lexStart_size {s : Lex} (h : (lexStart s).1 ≠ eof) : (lexStart s).2.size < s.size :=
  ((size_tracks s.size).lexStart (Nat.le_refl _)).2 h

theorem lexToken_size_le (c : Int) (s : Lex) : (lexToken c s).2.size ≤ s.size :=
  (size_tracks s.size).lexToken c (Nat.le_refl _)

theorem macroName_size_le (name : List Byte) (s : Lex) :
    (macroName name s).state.size ≤ s.size :=
  @LexTracks.macroName _ (size_tracks s.size) name [] s (Nat.le_refl _)

theorem lexError_size_le (m : Message) (s : Lex) : (lexError m s).2.size ≤ s.size :=
  @LexTracks.lexError _ (size_tracks s.size) m [] s (Nat.le_refl _)

/-- The character after the name of a macro is in the pushback buffer. -/
theorem macroName_pushback {name text : List Byte} {s s' : Lex}
    (h : macroName name s = .done text s') (hbuf : s.parsebuf = none) : s'.pushback ≠ [] := by
  fun_induction macroName name s with
  | case1 | case2 => cases h
  | case3 name s hc hlen hword ih => exact ih h (lgetc_parsebuf_none hbuf)
  | case4 name s hc hlen hword =>
      have hbuf' := @lgetc_parsebuf_none 0 s hbuf
      cases h
      rw [lungetc, if_neg hc, hbuf']
      simp only [lungetc.push]
      split
      · simp
      · next hfull =>
          intro hnil
          rw [hnil] at hfull
          exact hfull (by decide)

/-- What a call of `yylex` that returns a token does to the input. -/
inductive Progress (s' s : Lex) : Prop
  | read (hread : Read s'.levels s.levels)
  | dropped (hdropped : Dropped s'.levels s.levels) (hquiet : Quiet s')
  | pending (hlevels : s'.levels = s.levels)
      (hless : toLex (dollars s', s'.size) < toLex (dollars s, s.size))

theorem Account.progress {s s' : Lex} (h : Account s.levels (dollars s) [] s')
    (hsize : s'.size < s.size) : Progress s' s := by
  cases h.2 with
  | pending hlevels hdollars =>
      rw [spareDollar_nil, Nat.add_zero] at hdollars
      exact .pending hlevels (Prod.Lex.toLex_lt_toLex'.2 ⟨hdollars, fun _ => hsize⟩)
  | read hread => exact .read hread
  | dropped hdropped hquiet => exact .dropped hdropped hquiet

/-- Nothing but the files can be read when nothing else is pending. -/
theorem Progress.not_quiet {s s' : Lex} (hlevels : s'.levels = s.levels)
    (hless : toLex (dollars s', s'.size) < toLex (dollars s, s.size)) : ¬Quiet s := by
  intro ⟨hpush, hbuf⟩
  have hsize := inputSize_eq s
  have hsize' := inputSize_eq s'
  obtain ⟨hdollars, hlt⟩ := Prod.Lex.toLex_lt_toLex'.1 hless
  simp only [dollars, hpush, List.count_nil, Nat.le_zero] at hdollars hlt
  have := hlt hdollars
  rw [hlevels] at hsize'
  simp only [Lex.size, Lex.macroSize, hbuf, hpush, List.length_nil] at this hsize
  omega

/-- A macro's name was read: its dollar sign is gone, or something of a file is. -/
theorem macro_moved {s s' : Lex} {name : List Byte} (h : Poised s) (hstarts : StartsMacro s)
    (hname : macroName [] (lexStart s).2 = .done name s') :
    Read s'.levels s.levels ∨ s'.levels = s.levels ∧ dollars s' < dollars s := by
  have hstart := h.account_lexStart.2 (by rw [hstarts.1]; decide) hstarts.2
  have hmoved := (account_tracks (lexStart s).2.levels (dollars (lexStart s).2)).macroName []
    (account_self hstart.1.begun)
  have hpush := macroName_pushback hname hstarts.2
  rw [hname] at hmoved
  have hspare : spareDollar [(lexStart s).1] (lexStart s).2 = 1 := by
    rw [spareDollar, if_pos ⟨hstarts.2, by rw [hstarts.1]; decide⟩]
  cases hstart.2 with
  | dropped _ _ hnone => cases hnone
  | pending hlevels hdollars =>
      cases hmoved.2 with
      | pending hlevels' hdollars' =>
          refine .inr ⟨hlevels'.trans hlevels, ?_⟩
          rw [spareDollar_nil] at hdollars'
          change dollars s' + 0 ≤ _ at hdollars'
          omega
      | read hread' => exact .inl (hlevels ▸ hread')
      | dropped _ hquiet' => exact absurd hquiet'.1 hpush
  | read hread =>
      cases hmoved.2 with
      | pending hlevels' => exact .inl (by rw [show s'.levels = _ from hlevels']; exact hread)
      | read hread' => exact .inl (hread.trans hread')
      | dropped _ hquiet' => exact absurd hquiet'.1 hpush

theorem Progress.after_macro {s₁ s₂ s₃ : Lex} (h' : Progress s₃ s₂)
    (h : Read s₂.levels s₁.levels ∨ s₂.levels = s₁.levels ∧ dollars s₂ < dollars s₁) :
    Progress s₃ s₁ := by
  rcases h with hread | ⟨hlevels, hdollars⟩
  · cases h' with
    | read hread' => exact .read (hread.trans hread')
    | dropped hdropped' hquiet => exact .dropped (hread.dropped hdropped') hquiet
    | pending hlevels' => exact .read (hlevels' ▸ hread)
  · cases h' with
    | read hread' => exact .read (hlevels ▸ hread')
    | dropped hdropped' hquiet => exact .dropped (hlevels ▸ hdropped') hquiet
    | pending hlevels' hless =>
        obtain ⟨hle, -⟩ := Prod.Lex.toLex_lt_toLex'.1 hless
        refine .pending (hlevels'.trans hlevels) (Prod.Lex.toLex_lt_toLex'.2 ?_)
        exact ⟨hle.trans hdollars.le, fun heq => absurd heq (hle.trans_lt hdollars).ne⟩

/-- A macro that is not expanded: the rest of the line is skipped. -/
theorem macro_failed {s : Lex} (h : Poised s) (hstarts : StartsMacro s) (m : Message) :
    Begun (lexError m (macroName [] (lexStart s).2).state).2 ∧
      Progress (lexError m (macroName [] (lexStart s).2).state).2 s := by
  have htracks := account_tracks s.levels (dollars s)
  have hend := htracks.lexError m (htracks.macroName [] h.account_lexStart.1)
  have hstart := lexStart_size (s := s) (by rw [hstarts.1]; decide)
  have hname := macroName_size_le [] (lexStart s).2
  have herror := lexError_size_le m (macroName [] (lexStart s).2).state
  exact ⟨hend.1.begun, hend.progress (by omega)⟩

/-- `yylex` makes progress, unless it is at the end of the input. -/
theorem yylex_progress {s : Lex} (h : Poised s) (htoken : (yylex s).1 ≠ .char 0) :
    Begun (yylex s).2 ∧ Progress (yylex s).2 s := by
  fun_induction yylex s with
  | case1 s hstarts s' hname => exact absurd rfl htoken
  | case2 s hstarts s' hname =>
      have hfailed := macro_failed h hstarts .stringTooLong
      rwa [hname] at hfailed
  | case3 s hstarts name s' hname hval =>
      have hfailed := macro_failed h hstarts (.macroNotDefined (CStr.read name))
      rwa [hname] at hfailed
  | case4 s hstarts name s' hname val hval ih =>
      have hpoised : Poised { s' with parsebuf := some ⟨val, 0⟩ } := by
        intro _ _ hbuf
        cases hbuf
        exact .inl (Int.le_refl _)
      have hmoved := macro_moved h hstarts hname
      obtain ⟨hbegun, hprogress⟩ := ih hpoised htoken
      exact ⟨hbegun, hprogress.after_macro hmoved⟩
  | case5 s hstarts =>
      have hend := (account_tracks s.levels (dollars s)).lexToken (lexStart s).1
        h.account_lexStart.1
      have hsize := lexToken_size_le (lexStart s).1 (lexStart s).2
      refine ⟨hend.1.begun, hend.progress (Nat.lt_of_le_of_lt hsize (lexStart_size ?_))⟩
      intro heof
      rw [heof] at htoken
      exact htoken rfl

end Ifconfigd.Parse
