import Ifconfigd.Parse.Atop
import Ifconfigd.Parse.Values

/-!
# Lexers on different files

Two lexers that have read the same characters and know the same macros go on alike, as long
as their open files give them the same characters. `FilesSim` lists what is asked of the
files; line numbers and the places in which errors are counted can differ.
-/

namespace Ifconfigd.Parse

open CLib

/-! ## The value of the last token -/

section Val

/-- Reading from a file changes the files and what is known of their lines. -/
structure FromFile (s s' : Lex) : Prop where
  parsebuf : s'.parsebuf = s.parsebuf
  pushback : s'.pushback = s.pushback
  symhead : s'.symhead = s.symhead
  val : s'.val = s.val

theorem getcJoined_fromFile (s : Lex) : FromFile s (getcJoined s).2 := by
  simp only [getcJoined]
  split <;> exact ⟨rfl, rfl, rfl, rfl⟩

theorem getcQuoted_fromFile (quotec : Int) (s : Lex) : FromFile s (getcQuoted quotec s).2 := by
  rw [getcQuoted.eq_def]
  split
  · exact ⟨rfl, rfl, rfl, rfl⟩
  · cases hprev : s.prev <;> simp only [popfile, yyerror, hprev] <;> exact ⟨rfl, rfl, rfl, rfl⟩

theorem lungetc_val (c : Int) (s : Lex) : (lungetc c s).val = s.val :=
  lungetc_holds (P := fun s' => s'.val = s.val) (fun _ _ h => h) (fun _ _ h => h) rfl c

theorem lgetc_val (quotec : Int) (s : Lex) : (lgetc quotec s).2.val = s.val := by
  refine @lgetc_holds (fun s' => s'.val = s.val) quotec (fun _ _ h => h) (fun s' h => ?_) s rfl
  simp only [lgetcInput]
  split
  · exact h
  · split
    · exact (getcQuoted_fromFile quotec s').val.trans h
    · exact (getcJoined_fromFile s').val.trans h

theorem findeol_val (s : Lex) : (findeol s).val = s.val := by
  have hskip (s : Lex) (p : Int → Bool) : (skip p s).2.val = s.val := by
    fun_induction skip p s with
    | case1 s _ ih => exact ih.trans (lgetc_val 0 s)
    | case2 s _ => exact lgetc_val 0 s
  simp only [findeol]
  split <;> exact hskip _ _

variable {s t : Lex} (v : Val)

theorem lgetcInput_withVal (quotec : Int) : lgetcInput quotec { s with val := v } =
    ((lgetcInput quotec s).1, { (lgetcInput quotec s).2 with val := v }) := by
  simp only [lgetcInput]
  split
  · rfl
  split
  · simp only [getcQuoted]
    split
    · rfl
    · simp only [popfile, yyerror]
      cases s.prev <;> rfl
  · simp only [getcJoined]
    split <;> rfl

theorem lgetc_withVal (quotec : Int) : lgetc quotec { s with val := v } =
    ((lgetc quotec s).1, { (lgetc quotec s).2 with val := v }) := by
  simp only [lgetc]
  split
  · exact lgetcInput_withVal v quotec
  · split
    · split
      · rfl
      · exact @lgetcInput_withVal { s with parsebuf := none } v quotec
    · exact @lgetcInput_withVal { s with parsebuf := some _ } v quotec

theorem lungetc_withVal (c : Int) :
    lungetc c { s with val := v } = { lungetc c s with val := v } := by
  have hpush (s : Lex) : lungetc.push c { s with val := v } = { lungetc.push c s with val := v } := by
    simp only [lungetc.push]
    split <;> rfl
  simp only [lungetc]
  split
  · rfl
  · split
    · exact hpush s
    · split
      · rfl
      · exact hpush { s with parsebuf := some _ }

theorem skip_withVal (p : Int → Bool) : skip p { s with val := v } =
    ((skip p s).1, { (skip p s).2 with val := v }) := by
  fun_induction skip p s with
  | case1 s hc ih => rw [skip.eq_def, lgetc_withVal, dif_pos hc, ih]
  | case2 s hc => rw [skip.eq_def, lgetc_withVal, dif_neg hc]

theorem findeol_withVal : findeol { s with val := v } = { findeol s with val := v } := by
  have hskip := @skip_withVal { s with parsebuf := none } v (· ≠ ch '\n')
  simp only [findeol] at hskip ⊢
  rw [hskip]
  split <;> rfl

/-- Two lexers that differ in the value of the last token, which the first one has forgotten. -/
structure ValSim (hs : List Int) (s t : Lex) : Prop where
  same : ∃ v, t = { s with val := v }
  val : s.val = .none ∨ t.val = s.val
  range : ∀ c ∈ hs, -128 ≤ c ∧ c < 256

theorem lexSim_valSim : LexSim (fun _ => False) ValSim where
  keeps := ⟨⟨fun _ _ => id, fun _ _ => id, fun _ _ => id, fun _ => id, fun _ => id, fun _ _ => id⟩,
    fun _ _ _ h _ => h, fun _ _ => id⟩
  lgetc {hs s t} quotec hq h _ := by
    obtain ⟨⟨v, rfl⟩, hval, hrange⟩ := h
    rw [lgetc_withVal]
    refine ⟨rfl, ⟨v, rfl⟩, ?_, List.forall_mem_cons.2 ⟨lgetc_range hq s, hrange⟩⟩
    rw [lgetc_val]
    exact hval
  lungetc {c hs s t} h _ := by
    obtain ⟨⟨v, rfl⟩, hval, hrange⟩ := h
    refine ⟨⟨v, lungetc_withVal v c⟩, ?_, fun c hc => hrange c (List.mem_cons_of_mem _ hc)⟩
    rw [lungetc_val, lungetc_val]
    exact hval
  findeol {hs s t} h _ := by
    obtain ⟨⟨v, rfl⟩, hval, hrange⟩ := h
    refine ⟨⟨v, findeol_withVal v⟩, ?_, by simp⟩
    rw [findeol_val, findeol_val]
    exact hval
  yyerror m h := by
    obtain ⟨⟨v, rfl⟩, hval, hrange⟩ := h
    exact ⟨⟨v, rfl⟩, hval, hrange⟩
  nextLine h := by
    obtain ⟨⟨v, rfl⟩, hval, hrange⟩ := h
    exact ⟨⟨v, rfl⟩, hval, hrange⟩
  startLine h := by
    obtain ⟨⟨v, rfl⟩, hval, hrange⟩ := h
    exact ⟨⟨v, rfl⟩, hval, hrange⟩
  val v h := by
    obtain ⟨⟨w, rfl⟩, -, hrange⟩ := h
    exact ⟨⟨v, rfl⟩, .inr rfl, hrange⟩
  symget nam h _ := by
    obtain ⟨⟨v, rfl⟩, -, -⟩ := h
    rfl
  parsebuf h := by
    obtain ⟨⟨v, rfl⟩, -, -⟩ := h
    exact Iff.rfl
  startMacro val h _ _ := by
    obtain ⟨⟨v, rfl⟩, hval, -⟩ := h
    exact ⟨⟨v, rfl⟩, hval, by simp⟩
  range h := h.range _ List.mem_cons_self
  forget _ _ _ _ h := ⟨h.same, h.val, fun c hc => h.range c (List.mem_append_left _ hc)⟩

/-- What `yylex` does does not depend on the value of the last token. -/
theorem yylex_forget (s : Lex) :
    (yylex s).1 = (yylex { s with val := .none }).1 ∧
      (∃ v, (yylex s).2 = { (yylex { s with val := .none }).2 with val := v }) ∧
      ((yylex s).1 = .string ∨ (yylex s).1 = .number →
        (yylex s).2.val = (yylex { s with val := .none }).2.val) := by
  have hsim : ValSim [] { s with val := .none } s := ⟨⟨s.val, rfl⟩, .inl rfl, by simp⟩
  obtain ⟨htoken, hafter⟩ := lexSim_valSim.yylex hsim id
  refine ⟨htoken, hafter.same, fun hvalued => ?_⟩
  rw [htoken] at hvalued
  exact hafter.val.resolve_left (yylex_carries _ hvalued)

end Val

/-! ## The files -/

/-- Reading from files with `Fr` gives the same characters and leaves files with `Fr`, unless
the first lexer comes into a bad state. -/
structure FilesSim (Bad : Lex → Prop) (Fr : List File → List File → Prop) : Prop where
  keeps : LexKeeps Bad
  joined : ∀ {s t : Lex}, Fr s.files t.files → ¬Bad (getcJoined s).2 →
    (getcJoined t).1 = (getcJoined s).1 ∧ Fr (getcJoined s).2.files (getcJoined t).2.files
  quoted : ∀ {s t : Lex} (quotec : Int), Fr s.files t.files → ¬Bad (getcQuoted quotec s).2 →
    (getcQuoted quotec t).1 = (getcQuoted quotec s).1 ∧
      Fr (getcQuoted quotec s).2.files (getcQuoted quotec t).2.files
  lineno : ∀ {f f' : File} {prev prev' : List File} (n n' : Nat), Fr (f :: prev) (f' :: prev') →
    Fr ({ f with lineno := n } :: prev) ({ f' with lineno := n' } :: prev')
  count : ∀ {f f' : File} {prev prev' : List File}, Fr (f :: prev) (f' :: prev') →
    Fr ({ f with errors := f.errors + 1 } :: prev) ({ f' with errors := f'.errors + 1 } :: prev')

/-- The same characters were read, and the same macros are known. -/
structure LexPair (Fr : List File → List File → Prop) (s t : Lex) : Prop where
  files : Fr s.files t.files
  parsebuf : t.parsebuf = s.parsebuf
  pushback : t.pushback = s.pushback
  symhead : t.symhead = s.symhead

/-- The relation in a call of `yylex`: the value of the last token agrees once there was
one. -/
structure LexPairSim (Fr : List File → List File → Prop) (hs : List Int) (s t : Lex) : Prop where
  pair : LexPair Fr s t
  val : s.val = .none ∨ t.val = s.val
  range : ∀ c ∈ hs, -128 ≤ c ∧ c < 256

section LexPair

variable {Bad : Lex → Prop} {Fr : List File → List File → Prop} {s t : Lex} {hs : List Int}

theorem LexPair.expand (h : LexPair Fr s t) (buf : Option Parsebuf) :
    LexPair Fr { s with parsebuf := buf } { t with parsebuf := buf } :=
  ⟨h.files, rfl, h.pushback, h.symhead⟩

theorem LexPair.fromFile (h : LexPair Fr s t) {s' t' : Lex} (hs : FromFile s s')
    (ht : FromFile t t') (hfiles : Fr s'.files t'.files) : LexPair Fr s' t' :=
  ⟨hfiles, by rw [ht.parsebuf, hs.parsebuf, h.parsebuf],
    by rw [ht.pushback, hs.pushback, h.pushback], by rw [ht.symhead, hs.symhead, h.symhead]⟩

theorem LexPair.lungetc (h : LexPair Fr s t) (c : Int) :
    LexPair Fr (lungetc c s) (lungetc c t) := by
  have hpush {s t : Lex} (h : LexPair Fr s t) :
      LexPair Fr (lungetc.push c s) (lungetc.push c t) := by
    simp only [lungetc.push, h.pushback]
    split
    · exact ⟨h.files, h.parsebuf, rfl, h.symhead⟩
    · exact h
  simp only [Parse.lungetc, h.parsebuf]
  split
  · exact h
  · split
    · exact hpush h
    · split
      · exact h.expand _
      · exact hpush (h.expand _)

variable (hF : FilesSim Bad Fr)

include hF

theorem LexPair.lgetcInput {quotec : Int} (h : LexPair Fr s t)
    (hgood : ¬Bad (lgetcInput quotec s).2) :
    (lgetcInput quotec t).1 = (lgetcInput quotec s).1 ∧
      LexPair Fr (lgetcInput quotec s).2 (lgetcInput quotec t).2 := by
  revert hgood
  simp only [Parse.lgetcInput, h.pushback]
  split
  · exact fun _ => ⟨rfl, h.files, h.parsebuf, rfl, h.symhead⟩
  split
  · intro hgood
    obtain ⟨heq, hfiles⟩ := hF.quoted quotec h.files hgood
    exact ⟨heq, h.fromFile (getcQuoted_fromFile _ _) (getcQuoted_fromFile _ _) hfiles⟩
  · intro hgood
    obtain ⟨heq, hfiles⟩ := hF.joined h.files hgood
    exact ⟨heq, h.fromFile (getcJoined_fromFile _) (getcJoined_fromFile _) hfiles⟩

theorem LexPair.lgetc {quotec : Int} (h : LexPair Fr s t) (hgood : ¬Bad (lgetc quotec s).2) :
    (lgetc quotec t).1 = (lgetc quotec s).1 ∧
      LexPair Fr (lgetc quotec s).2 (lgetc quotec t).2 := by
  revert hgood
  simp only [Parse.lgetc, h.parsebuf]
  split
  · exact h.lgetcInput hF
  · split
    · split
      · exact fun _ => ⟨rfl, h.expand _⟩
      · exact (h.expand _).lgetcInput hF
    · exact (h.expand _).lgetcInput hF

theorem LexPairSim.lgetc (h : LexPairSim Fr hs s t) {quotec : Int}
    (hq : quotec = 0 ∨ quotec = ch '\'' ∨ quotec = ch '"') (hgood : ¬Bad (lgetc quotec s).2) :
    (lgetc quotec t).1 = (lgetc quotec s).1 ∧
      LexPairSim Fr ((lgetc quotec s).1 :: hs) (lgetc quotec s).2 (lgetc quotec t).2 := by
  obtain ⟨heq, hpair⟩ := h.pair.lgetc hF hgood
  refine ⟨heq, hpair, ?_, List.forall_mem_cons.2 ⟨lgetc_range hq s, h.range⟩⟩
  rw [lgetc_val, lgetc_val]
  exact h.val

theorem LexPair.nextLine (h : LexPair Fr s t) : LexPair Fr (nextLine s) (nextLine t) :=
  ⟨hF.lineno _ _ h.files, h.parsebuf, h.pushback, h.symhead⟩

theorem LexPair.yyerror (m : Message) (h : LexPair Fr s t) :
    LexPair Fr (yyerror m s) (yyerror m t) :=
  ⟨hF.count h.files, h.parsebuf, h.pushback, h.symhead⟩

theorem LexPairSim.skip (h : LexPairSim Fr hs s t) (p : Int → Bool)
    (hgood : ¬Bad (skip p s).2) :
    (skip p t).1 = (skip p s).1 ∧ LexPairSim Fr [] (skip p s).2 (skip p t).2 := by
  fun_induction Parse.skip p s generalizing t hs with
  | case1 s hc ih =>
      have hgood' : ¬Bad (Parse.lgetc 0 s).2 := fun hb => hgood (hF.keeps.skip p hb)
      obtain ⟨heq, h'⟩ := h.lgetc hF (.inl rfl) hgood'
      rw [Parse.skip.eq_def p t, heq, dif_pos hc]
      exact ih h' hgood
  | case2 s hc =>
      obtain ⟨heq, h'⟩ := h.lgetc hF (.inl rfl) hgood
      rw [Parse.skip.eq_def p t, heq, dif_neg hc]
      exact ⟨heq, h'.pair, h'.val, by simp⟩

theorem LexPairSim.findeol (h : LexPairSim Fr hs s t) (hgood : ¬Bad (findeol s)) :
    LexPairSim Fr [] (findeol s) (findeol t) := by
  have h₀ : LexPairSim Fr hs { s with parsebuf := none } { t with parsebuf := none } :=
    ⟨h.pair.expand none, h.val, h.range⟩
  have hgood' : ¬Bad (Parse.skip (· ≠ ch '\n') { s with parsebuf := none }).2 := by
    intro hb
    apply hgood
    simp only [Parse.findeol]
    split
    · exact hF.keeps.nextLine _ hb
    · exact hb
  obtain ⟨heq, h'⟩ := h₀.skip hF _ hgood'
  simp only [Parse.findeol, heq]
  split
  · exact ⟨h'.pair.nextLine hF, h'.val, h'.range⟩
  · exact h'

theorem lexSim_lexPairSim : LexSim Bad (LexPairSim Fr) where
  keeps := hF.keeps
  lgetc quotec hq h hgood := h.lgetc hF hq hgood
  lungetc h _ := ⟨h.pair.lungetc _, by rw [lungetc_val, lungetc_val]; exact h.val,
    fun c hc => h.range c (List.mem_cons_of_mem _ hc)⟩
  findeol h hgood := h.findeol hF hgood
  yyerror m h := ⟨h.pair.yyerror hF m, h.val, h.range⟩
  nextLine h := ⟨h.pair.nextLine hF, h.val, h.range⟩
  startLine h := ⟨⟨h.pair.files, h.pair.parsebuf, h.pair.pushback, h.pair.symhead⟩, h.val, h.range⟩
  val v h := ⟨⟨h.pair.files, h.pair.parsebuf, h.pair.pushback, h.pair.symhead⟩, .inr rfl, h.range⟩
  symget nam h _ := by rw [symget, symget, h.pair.symhead]
  parsebuf h := by rw [h.pair.parsebuf]
  startMacro val h _ _ := ⟨h.pair.expand _, h.val, by simp⟩
  range h := h.range _ List.mem_cons_self
  forget _ _ _ _ h := ⟨h.pair, h.val, fun c hc => h.range c (List.mem_append_left _ hc)⟩

/-- A call of `yylex` returns the same token, with the same value if it has one. -/
theorem LexPair.yylex (h : LexPair Fr s t) (hgood : ¬Bad (yylex s).2) :
    (yylex t).1 = (yylex s).1 ∧ LexPair Fr (yylex s).2 (yylex t).2 ∧
      ((yylex s).1 = .string ∨ (yylex s).1 = .number → (yylex t).2.val = (yylex s).2.val) := by
  obtain ⟨htoken, ⟨v, hstate⟩, hval⟩ := yylex_forget s
  have hsim : LexPairSim Fr [] { s with val := .none } t :=
    ⟨⟨h.files, h.parsebuf, h.pushback, h.symhead⟩, .inl rfl, by simp⟩
  have hgood' : ¬Bad (Parse.yylex { s with val := .none }).2 := by
    intro hbad
    rw [hstate] at hgood
    exact hgood (hF.keeps.val _ v hbad)
  obtain ⟨htoken', hpair⟩ := (lexSim_lexPairSim hF).yylex hsim hgood'
  refine ⟨htoken'.trans htoken.symm, ?_, fun hvalued => ?_⟩
  · rw [hstate]
    exact ⟨hpair.pair.files, hpair.pair.parsebuf, hpair.pair.pushback, hpair.pair.symhead⟩
  · rw [hval hvalued]
    rw [htoken] at hvalued
    exact hpair.val.resolve_left (yylex_carries _ hvalued)

end LexPair

end Ifconfigd.Parse
