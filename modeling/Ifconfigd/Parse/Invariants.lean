import Ifconfigd.Parse.Parser

/-!
# Invariants of the lexer and of the actions

Everything `yylex` does to the globals is done by a few operations: `lgetc`, `lungetc`,
`yyerror`, setting or dropping the macro text, and assignments to line numbers and
`yylval`. What these keep, `yylex` keeps. The same for the actions: they read values
off the stack, follow a pointer, and update.
-/

namespace Ifconfigd.Parse

open CLib Yacc

/-! ## The lexer -/

/-- What does not depend on the macro text is kept by `lgetc` if it is kept by the part
that reads the rest of the input. -/
theorem lgetc_holds {P : Lex → Prop} {quotec : Int}
    (hexpand : ∀ s buf, P s → P { s with parsebuf := buf })
    (hinput : ∀ s, P s → P (lgetcInput quotec s).2) {s : Lex} (h : P s) :
    P (lgetc quotec s).2 := by
  simp only [lgetc]
  split
  · exact hinput s h
  · split
    · split
      · exact hexpand s _ h
      · exact hinput _ (hexpand s none h)
    · exact hinput _ (hexpand s _ h)

theorem lungetc_holds {P : Lex → Prop}
    (hexpand : ∀ s buf, P s → P { s with parsebuf := buf })
    (hpush : ∀ s bs, P s → P { s with pushback := bs }) {s : Lex} (h : P s) (c : Int) :
    P (lungetc c s) := by
  have hpush' : ∀ s, P s → P (lungetc.push c s) := by
    intro s h
    simp only [lungetc.push]
    split
    · exact hpush s _ h
    · exact h
  simp only [lungetc]
  split
  · exact h
  · split
    · exact hpush' s h
    · split
      · exact hexpand s _ h
      · exact hpush' _ (hexpand s _ h)

/-- Every operation the loops of the lexer are made of keeps `P`. -/
structure LoopKeeps (P : Lex → Prop) : Prop where
  lgetc : ∀ quotec s, P s → P (lgetc quotec s).2
  lungetc : ∀ c s, P s → P (lungetc c s)
  yyerror : ∀ m s, P s → P (yyerror m s)
  endMacro : ∀ s, P s → P { s with parsebuf := none }
  nextLine : ∀ s, P s → P (nextLine s)
  lineno : ∀ s n, P s → P { s with lineno := n }

/-- Every operation the lexer is made of keeps `P`. -/
structure LexKeeps (P : Lex → Prop) : Prop extends LoopKeeps P where
  startMacro : ∀ s nam val, P s → symget nam s = some val →
    P { s with parsebuf := some ⟨val, 0⟩ }
  val : ∀ s v, P s → P { s with val := v }

/-- The state a loop ends in. -/
def Scan.state : Scan → Lex
  | .done _ s | .eof s | .tooLong s => s

def QuoteStep.state : QuoteStep → Lex
  | .eof s | .close s | .char _ s | .newline s => s

namespace LoopKeeps

variable {P : Lex → Prop} (h : LoopKeeps P)

include h

theorem skip (p : Int → Bool) {s : Lex} (hs : P s) : P (skip p s).2 := by
  fun_induction Parse.skip p s with
  | case1 s hc ih => exact ih (h.lgetc 0 s hs)
  | case2 s hc => exact h.lgetc 0 s hs

theorem findeol {s : Lex} (hs : P s) : P (findeol s) := by
  have hskip := h.skip (· ≠ ch '\n') (h.endMacro s hs)
  simp only [Parse.findeol]
  split
  · exact h.nextLine _ hskip
  · exact hskip

theorem macroName (name : List Byte) {s : Lex} (hs : P s) : P (macroName name s).state := by
  fun_induction Parse.macroName name s with
  | case1 | case2 => exact h.lgetc 0 _ hs
  | case3 name s hc hlen hword ih => exact ih (h.lgetc 0 s hs)
  | case4 name s hc hlen hword => exact h.lungetc _ _ (h.lgetc 0 s hs)

theorem quoteStep (quotec : Int) {s : Lex} (hs : P s) : P (quoteStep quotec s).state := by
  have h₁ := h.lgetc quotec s hs
  have h₂ := h.lgetc quotec _ h₁
  simp only [Parse.quoteStep]
  split_ifs
  · exact h₁
  · exact h.nextLine _ h₁
  · exact h₂
  · exact h₂
  · exact h.nextLine _ h₂
  · exact h.lungetc _ _ h₂
  · exact h₁
  · exact h₁

theorem quoted (quotec : Int) (text : List Byte) {s : Lex} (hs : P s) :
    P (quoted quotec text s).state := by
  have hstep := fun s hs => h.quoteStep quotec (s := s) hs
  fun_induction Parse.quoted quotec text s with
  | case1 text s s' heq | case2 text s s' heq =>
      have := hstep s hs
      rw [heq] at this
      exact this
  | case3 text s s' heq ih =>
      have := hstep s hs
      rw [heq] at this
      exact ih this
  | case4 text s c s' heq hlen =>
      have := hstep s hs
      rw [heq] at this
      exact this
  | case5 text s c s' heq hlen ih =>
      have := hstep s hs
      rw [heq] at this
      exact ih this

theorem scan (p : Int → Bool) (text : List Byte) (c : Int) {s : Lex} (hs : P s) :
    P (scan p text c s).1.state := by
  fun_induction Parse.scan p text c s with
  | case1 => exact hs
  | case2 text c s hlen hc ih => exact ih (h.lgetc 0 s hs)
  | case3 text c s hlen hc => exact h.lungetc _ _ (h.lgetc 0 s hs)

theorem lexError (m : Message) {s : Lex} (hs : P s) : P (lexError m s).2 :=
  h.findeol (h.yyerror m s hs)

theorem lexStart {s : Lex} (hs : P s) : P (lexStart s).2 := by
  have hblank := h.lineno _ (Parse.skip isBlank s).2.file.lineno (h.skip isBlank hs)
  simp only [Parse.lexStart]
  split_ifs
  · exact h.skip _ hblank
  · exact hblank

theorem unread (bs : List Byte) {s : Lex} (hs : P s) :
    P (bs.foldl (fun s b => Parse.lungetc (schar b) s) s) := by
  induction bs generalizing s with
  | nil => exact hs
  | cons b bs ih => exact ih (h.lungetc _ _ hs)

end LoopKeeps

namespace LexKeeps

variable {P : Lex → Prop} (h : LexKeeps P)

include h

theorem lexQuoted (quotec : Int) {s : Lex} (hs : P s) : P (lexQuoted quotec s).2 := by
  have hq := h.quoted quotec [] hs
  simp only [Parse.lexQuoted]
  split <;> next heq => rw [heq] at hq; first | exact hq | exact h.lexError _ hq | exact h.val _ _ hq

theorem wordToken (text : List Byte) {s : Lex} (hs : P s) : P (wordToken text s).2 := by
  simp only [Parse.wordToken]
  split
  · exact h.val _ _ hs
  · exact hs

theorem lexWord (c : Int) {s : Lex} (hs : P s) : P (lexWord c s).2 := by
  have hscan := h.scan allowedInString [] c hs
  simp only [Parse.lexWord]
  split_ifs
  · split
    · next heq => rw [heq] at hscan; exact hscan
    · next heq => rw [heq] at hscan; exact h.lexError _ hscan
    · next heq => rw [heq] at hscan; exact h.wordToken _ hscan
  · exact h.nextLine _ (h.lineno s s.file.lineno hs)
  · exact hs
  · exact hs

theorem lexNodigits (text : List Byte) {s : Lex} (hs : P s) : P (lexNodigits text s).2 := by
  simp only [Parse.lexNodigits]
  split_ifs
  · exact h.unread _ hs
  · exact h.lexWord _ (h.unread _ hs)

theorem lexNumber (c : Int) {s : Lex} (hs : P s) : P (lexNumber c s).2 := by
  have hscan := h.scan isdigit [] c hs
  simp only [Parse.lexNumber]
  split
  · next heq => rw [heq] at hscan; exact hscan
  · next heq => rw [heq] at hscan; exact h.lexError _ hscan
  · next heq =>
      rw [heq] at hscan
      split_ifs
      · exact h.lexNodigits _ hscan
      · split
        · exact h.val _ _ hscan
        · exact h.lexError _ hscan
      · exact h.lexNodigits _ hscan

theorem lexToken (c : Int) {s : Lex} (hs : P s) : P (lexToken c s).2 := by
  simp only [Parse.lexToken]
  split_ifs
  · exact h.lexQuoted c hs
  · exact h.lexNumber c hs
  · exact h.lexWord c hs

theorem yylex {s : Lex} (hs : P s) : P (yylex s).2 := by
  fun_induction Parse.yylex s with
  | case1 s hc s' hname =>
      have := h.macroName [] (h.lexStart hs)
      rw [hname] at this
      exact this
  | case2 s hc s' hname =>
      have := h.macroName [] (h.lexStart hs)
      rw [hname] at this
      exact h.lexError _ this
  | case3 s hc name s' hname hsym =>
      have := h.macroName [] (h.lexStart hs)
      rw [hname] at this
      exact h.lexError _ this
  | case4 s hc name s' hname val hsym ih =>
      have := h.macroName [] (h.lexStart hs)
      rw [hname] at this
      exact ih (h.startMacro _ _ _ this hsym)
  | case5 s hc => exact h.lexToken _ (h.lexStart hs)

end LexKeeps

/-- The lexer does not set macros. -/
theorem lexKeeps_symhead (t : List Sym) : LexKeeps fun s => s.symhead = t where
  lgetc quotec _ := lgetc_holds (P := fun s => s.symhead = t) (fun _ _ h => h) fun s h => by
    simp only [lgetcInput, getcQuoted, getcJoined, popfile, yyerror]
    grind
  lungetc c _ h := lungetc_holds (P := fun s => s.symhead = t) (fun _ _ h => h) (fun _ _ h => h) h c
  yyerror _ _ h := h
  endMacro _ h := h
  startMacro _ _ _ h _ := h
  nextLine _ h := h
  lineno _ _ h := h
  val _ _ h := h

/-! ## The actions -/

section Actions

variable {P : Yy → Prop}

theorem withString_holds {vs : List Val} {i : Nat} {k : CStr → Outcome Val Yy}
    (h : ∀ s, (k s).Holds P) : (withString vs i k).Holds P := by
  simp only [withString]
  split
  · exact h _
  · trivial

theorem withNumber_holds {vs : List Val} {i : Nat} {k : Int → Outcome Val Yy}
    (h : ∀ n, (k n).Holds P) : (withNumber vs i k).Holds P := by
  simp only [withNumber]
  split
  · exact h _
  · trivial

theorem withPtr_holds {p : Option Nat} {k : Nat → Outcome Val Yy} (h : ∀ i, (k i).Holds P) :
    (withPtr p k).Holds P := by
  cases p with
  | some i => exact h i
  | none => trivial

end Actions

/-- What the action of rule `n` does to the lexer: nothing, as a rule. -/
inductive LexEffect (fs : FileSystem) (n : Nat) (y : Yy) : Yy → Prop
  | same {y' : Yy} (hlex : y'.lex = y.lex) (hcount : y'.grammarErrors = y.grammarErrors) :
      LexEffect fs n y y'
  | report {y' : Yy} (m : Message) (hlex : y'.lex = yyerror m y.lex)
      (hcount : y'.grammarErrors = y.grammarErrors) : LexEffect fs n y y'
  | grammarError {y' : Yy} (hn : n = 7)
      (hlex : y'.lex = { y.lex with file := { y.lex.file with errors := y.lex.file.errors + 1 } })
      (hcount : y'.grammarErrors = y.grammarErrors + 1) : LexEffect fs n y y'
  | include {y' : Yy} (hn : n = 15) (name : CStr) (nfile : File)
      (hfile : pushfile fs (y.lex.file :: y.lex.prev) name true = some nfile)
      (hlex : y'.lex =
        lungetc (ch '\n') { y.lex with file := nfile, prev := y.lex.file :: y.lex.prev })
      (hcount : y'.grammarErrors = y.grammarErrors) : LexEffect fs n y y'
  | varset {y' : Yy} (hn : n = 18) (nam val : CStr)
      (hlex : y'.lex = { y.lex with symhead := symset nam val false y.lex.symhead })
      (hcount : y'.grammarErrors = y.grammarErrors) : LexEffect fs n y y'

theorem withPtr_same {fs : FileSystem} {n : Nat} {y : Yy} {v : Val} {p : Option Nat}
    {k : Nat → Yy} (hlex : ∀ i, (k i).lex = y.lex)
    (hcount : ∀ i, (k i).grammarErrors = y.grammarErrors) :
    (withPtr p fun i => .ok v (k i)).Holds (LexEffect fs n y) :=
  withPtr_holds fun i => .same (hlex i) (hcount i)

theorem actInclude_lexEffect (fs : FileSystem) (v : Val) (name : CStr) (y : Yy) :
    (actInclude fs v name y).Holds (LexEffect fs 15 y) := by
  simp only [actInclude]
  split
  · exact .report _ rfl rfl
  · next nfile hfile => exact .include rfl name nfile hfile rfl rfl

theorem actGlobal_lexEffect (fs : FileSystem) (v : Val) (n : Int) (y : Yy) :
    (actGlobal v n y).Holds (LexEffect fs 19 y) := by
  simp only [actGlobal]
  split
  · exact .report _ rfl rfl
  · exact .same rfl rfl

theorem actNetwork_lexEffect (fs : FileSystem) (v : Val) (name : CStr) (y : Yy) :
    (actNetwork v name y).Holds (LexEffect fs 20 y) := by
  simp only [actNetwork]
  split
  · exact .report _ rfl rfl
  · exact .same rfl rfl

theorem actEthernetDhcp_lexEffect (fs : FileSystem) (v : Val) (yes : Int) (y : Yy) :
    (actEthernetDhcp v yes y).Holds (LexEffect fs 37 y) := by
  simp only [actEthernetDhcp]
  split
  · split <;> exact withPtr_same (fun _ => rfl) fun _ => rfl
  · exact withPtr_same (fun _ => rfl) fun _ => rfl

theorem actWirelessDhcp_lexEffect (fs : FileSystem) (v : Val) (yes : Int) (y : Yy) :
    (actWirelessDhcp v yes y).Holds (LexEffect fs 56 y) := by
  simp only [actWirelessDhcp]
  split <;> exact withPtr_same (fun _ => rfl) fun _ => rfl

theorem action_lexEffect (fs : FileSystem) (n : Nat) (vs : List Val) (v : Val) (y : Yy) :
    (action fs n vs v y).Holds (LexEffect fs n y) := by
  unfold action
  split
  all_goals first
    | exact .same rfl rfl
    | exact .grammarError rfl rfl rfl
    | exact withString_holds fun _ => withPtr_same (fun _ => rfl) fun _ => rfl
    | exact withNumber_holds fun _ => withPtr_same (fun _ => rfl) fun _ => rfl
    | exact withString_holds fun _ => withString_holds fun _ => .same rfl rfl
    | exact withString_holds fun _ => withString_holds fun _ => .varset rfl _ _ rfl rfl
    | exact withString_holds fun _ => actInclude_lexEffect fs _ _ y
    | exact withNumber_holds fun _ => actGlobal_lexEffect fs _ _ y
    | exact withString_holds fun _ => actNetwork_lexEffect fs _ _ y
    | exact withNumber_holds fun _ => actEthernetDhcp_lexEffect fs _ _ y
    | exact withNumber_holds fun _ => actWirelessDhcp_lexEffect fs _ _ y

/-! ## Actions do not look at the lexer -/

def Yy.withLex (y : Yy) (l : Lex) : Yy := { y with lex := l }

/-- The same outcome over two lexers: neither is changed, or the same error is reported
in both. -/
inductive Alike (l l' : Lex) : Outcome Val Yy → Outcome Val Yy → Prop
  | ok (v : Val) {y y' : Yy} (hlex : y.lex = l) (h : y' = y.withLex l') :
      Alike l l' (.ok v y) (.ok v y')
  | fail (m : Message) {y y' : Yy} (hlex : y.lex = yyerror m l)
      (h : y' = y.withLex (yyerror m l')) : Alike l l' (.error y) (.error y')
  | crash : Alike l l' .crash .crash

section Alike

variable {l l' : Lex}

theorem withString_alike {vs : List Val} {i : Nat} {k k' : CStr → Outcome Val Yy}
    (h : ∀ s, Alike l l' (k s) (k' s)) : Alike l l' (withString vs i k) (withString vs i k') := by
  simp only [withString]
  split
  · exact h _
  · exact .crash

theorem withNumber_alike {vs : List Val} {i : Nat} {k k' : Int → Outcome Val Yy}
    (h : ∀ n, Alike l l' (k n) (k' n)) : Alike l l' (withNumber vs i k) (withNumber vs i k') := by
  simp only [withNumber]
  split
  · exact h _
  · exact .crash

theorem withPtr_alike {p : Option Nat} {k k' : Nat → Outcome Val Yy}
    (h : ∀ i, Alike l l' (k i) (k' i)) : Alike l l' (withPtr p k) (withPtr p k') := by
  cases p with
  | some i => exact h i
  | none => exact .crash

theorem actGlobal_alike (v : Val) (n : Int) (y : Yy) :
    Alike l l' (actGlobal v n (y.withLex l)) (actGlobal v n (y.withLex l')) := by
  simp only [actGlobal]
  split
  · exact .fail _ rfl rfl
  · exact .ok v rfl rfl

theorem actNetwork_alike (v : Val) (name : CStr) (y : Yy) :
    Alike l l' (actNetwork v name (y.withLex l)) (actNetwork v name (y.withLex l')) := by
  simp only [actNetwork]
  split
  · exact .fail _ rfl rfl
  · exact .ok v rfl rfl

theorem actEthernetDhcp_alike (v : Val) (yes : Int) (y : Yy) :
    Alike l l' (actEthernetDhcp v yes (y.withLex l)) (actEthernetDhcp v yes (y.withLex l')) := by
  simp only [actEthernetDhcp]
  split
  · by_cases hnone : y.staticonfig = none
    · simp only [Yy.withLex, hnone, if_true]
      exact withPtr_alike fun _ => .ok v rfl rfl
    · simp only [Yy.withLex, hnone, if_false]
      exact withPtr_alike fun _ => .ok v rfl rfl
  · exact withPtr_alike fun _ => .ok v rfl rfl

theorem actWirelessDhcp_alike (v : Val) (yes : Int) (y : Yy) :
    Alike l l' (actWirelessDhcp v yes (y.withLex l)) (actWirelessDhcp v yes (y.withLex l')) := by
  simp only [actWirelessDhcp]
  split <;> exact withPtr_alike fun _ => .ok v rfl rfl

/-- Only the rules for errors, includes and macros work on the lexer. -/
theorem action_alike (l l' : Lex) (fs : FileSystem) {n : Nat} (hn : n ∉ [7, 15, 18])
    (vs : List Val) (v : Val) (y : Yy) :
    Alike l l' (action fs n vs v (y.withLex l)) (action fs n vs v (y.withLex l')) := by
  unfold action
  split
  all_goals first
    | exact absurd (by decide) hn
    | exact .ok _ rfl rfl
    | exact withString_alike fun _ => withPtr_alike fun _ => .ok v rfl rfl
    | exact withNumber_alike fun _ => withPtr_alike fun _ => .ok v rfl rfl
    | exact withString_alike fun _ => withString_alike fun _ => .ok _ rfl rfl
    | exact withNumber_alike fun _ => actGlobal_alike v _ y
    | exact withString_alike fun _ => actNetwork_alike v _ y
    | exact withNumber_alike fun _ => actEthernetDhcp_alike v _ y
    | exact withNumber_alike fun _ => actWirelessDhcp_alike v _ y

end Alike

end Ifconfigd.Parse
