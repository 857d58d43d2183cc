import Ifconfigd.Parse.Invariants

/-!
# Two lexers side by side

A relation between two states of the lexer that the operations of `yylex` keep, with
the same characters read on both sides, is kept by `yylex`, with the same tokens. The
relation may depend on the characters read last, since these are what `lungetc` is
called with.

The first lexer may come into a bad state, in which the relation is lost; a bad state
stays bad. What is shown about a call of `yylex` is for calls that do not end in one.
-/

namespace Ifconfigd.Parse

open CLib

/-- The operations of the lexer keep `R`. The list holds the characters that were read
and not pushed back, the last one in front; older ones can be forgotten. One character
is pushed back at a time, or a number, so what is left after `lungetc` are digits. -/
structure LexSim (Bad : Lex → Prop) (R : List Int → Lex → Lex → Prop) : Prop where
  keeps : LexKeeps Bad
  lgetc : ∀ {hs s t} (quotec : Int), quotec = 0 ∨ quotec = ch '\'' ∨ quotec = ch '"' → R hs s t →
    ¬Bad (lgetc quotec s).2 → (lgetc quotec t).1 = (lgetc quotec s).1 ∧
      R ((lgetc quotec s).1 :: hs) (lgetc quotec s).2 (lgetc quotec t).2
  lungetc : ∀ {c hs s t}, R (c :: hs) s t → (∀ x ∈ hs, isdigit x = true) →
    R hs (lungetc c s) (lungetc c t)
  findeol : ∀ {hs s t}, R hs s t → ¬Bad (findeol s) → R [] (findeol s) (findeol t)
  yyerror : ∀ {hs s t} (m : Message), R hs s t → R hs (yyerror m s) (yyerror m t)
  nextLine : ∀ {hs s t}, R hs s t → R hs (nextLine s) (nextLine t)
  startLine : ∀ {hs s t}, R hs s t →
    R hs { s with lineno := s.file.lineno } { t with lineno := t.file.lineno }
  val : ∀ {hs s t} (v : Val), R hs s t → R hs { s with val := v } { t with val := v }
  symget : ∀ {hs s t} (nam : CStr), R hs s t →
    (symget nam s = none → ¬Bad (lexError (.macroNotDefined nam) s).2) →
      symget nam t = symget nam s
  parsebuf : ∀ {hs s t}, R (ch '$' :: hs) s t → (t.parsebuf = none ↔ s.parsebuf = none)
  startMacro : ∀ {hs s t} (val : CStr), R hs s t → s.parsebuf = none → t.parsebuf = none →
    R [] { s with parsebuf := some ⟨val, 0⟩ } { t with parsebuf := some ⟨val, 0⟩ }
  range : ∀ {c hs s t}, R (c :: hs) s t → -128 ≤ c ∧ c < 256
  forget : ∀ (hs : List Int) {hs' s t}, R (hs ++ hs') s t → R hs s t

/-- Two loops end in the same way. -/
inductive ScanSim (Q : List Byte → Lex → Lex → Prop) (R : Lex → Lex → Prop) : Scan → Scan → Prop
  | done {text : List Byte} {s t : Lex} : Q text s t → ScanSim Q R (.done text s) (.done text t)
  | eof {s t : Lex} : R s t → ScanSim Q R (.eof s) (.eof t)
  | tooLong {s t : Lex} : R s t → ScanSim Q R (.tooLong s) (.tooLong t)

theorem ScanSim.mono {Q Q' : List Byte → Lex → Lex → Prop} {R : Lex → Lex → Prop} {a b : Scan}
    (h : ScanSim Q R a b) (hQ : ∀ text s t, Q text s t → Q' text s t) : ScanSim Q' R a b := by
  cases h with
  | done hQ' => exact .done (hQ _ _ _ hQ')
  | eof hR => exact .eof hR
  | tooLong hR => exact .tooLong hR

theorem ScanSim.of_done {Q : List Byte → Lex → Lex → Prop} {R : Lex → Lex → Prop}
    {text : List Byte} {s : Lex} {b : Scan} (h : ScanSim Q R (.done text s) b) :
    ∃ t, b = .done text t ∧ Q text s t := by
  cases h with
  | done hQ => exact ⟨_, rfl, hQ⟩

theorem ScanSim.of_eof {Q : List Byte → Lex → Lex → Prop} {R : Lex → Lex → Prop} {s : Lex}
    {b : Scan} (h : ScanSim Q R (.eof s) b) : ∃ t, b = .eof t ∧ R s t := by
  cases h with
  | eof hR => exact ⟨_, rfl, hR⟩

theorem ScanSim.of_tooLong {Q : List Byte → Lex → Lex → Prop} {R : Lex → Lex → Prop} {s : Lex}
    {b : Scan} (h : ScanSim Q R (.tooLong s) b) : ∃ t, b = .tooLong t ∧ R s t := by
  cases h with
  | tooLong hR => exact ⟨_, rfl, hR⟩

inductive QuoteSim (R : Lex → Lex → Prop) : QuoteStep → QuoteStep → Prop
  | eof {s t : Lex} : R s t → QuoteSim R (.eof s) (.eof t)
  | close {s t : Lex} : R s t → QuoteSim R (.close s) (.close t)
  | char {c : Int} {s t : Lex} : R s t → QuoteSim R (.char c s) (.char c t)
  | newline {s t : Lex} : R s t → QuoteSim R (.newline s) (.newline t)

namespace LexSim

variable {Bad : Lex → Prop} {R : List Int → Lex → Lex → Prop} (h : LexSim Bad R)

include h

theorem forgetAll {hs : List Int} {s t : Lex} (hR : R hs s t) : R [] s t :=
  h.forget [] hR

theorem forgetTail {c : Int} {hs : List Int} {s t : Lex} (hR : R (c :: hs) s t) : R [c] s t :=
  h.forget [c] hR

theorem unget {c : Int} {hs : List Int} {s t : Lex} (hR : R (c :: hs) s t) :
    R [] (Parse.lungetc c s) (Parse.lungetc c t) :=
  h.lungetc (h.forgetTail hR) (by simp)

theorem skip (p : Int → Bool) {hs : List Int} {s t : Lex} (hR : R hs s t)
    (hbad : ¬Bad (skip p s).2) :
    (skip p t).1 = (skip p s).1 ∧ R [(skip p s).1] (skip p s).2 (skip p t).2 := by
  fun_induction Parse.skip p s generalizing t hs with
  | case1 s hc ih =>
      have hgood : ¬Bad (Parse.lgetc 0 s).2 := fun hb => hbad (h.keeps.skip p hb)
      obtain ⟨heq, hR'⟩ := h.lgetc 0 (.inl rfl) hR hgood
      rw [Parse.skip.eq_def p t, heq, dif_pos hc]
      exact ih hR' hbad
  | case2 s hc =>
      obtain ⟨heq, hR'⟩ := h.lgetc 0 (.inl rfl) hR hbad
      rw [Parse.skip.eq_def p t, heq, dif_neg hc]
      exact ⟨heq, h.forgetTail hR'⟩

theorem macroName (name : List Byte) {hs : List Int} {s t : Lex} (hR : R hs s t)
    (hbad : ¬Bad (macroName name s).state) :
    ScanSim (fun _ => R []) (R []) (macroName name s) (macroName name t) := by
  fun_induction Parse.macroName name s generalizing t hs with
  | case1 name s hc =>
      obtain ⟨heq, hR'⟩ := h.lgetc 0 (.inl rfl) hR hbad
      rw [Parse.macroName.eq_def name t, heq, dif_pos hc]
      exact .eof (h.forgetAll hR')
  | case2 name s hc hlen =>
      obtain ⟨heq, hR'⟩ := h.lgetc 0 (.inl rfl) hR hbad
      rw [Parse.macroName.eq_def name t, heq, dif_neg hc, if_pos hlen]
      exact .tooLong (h.forgetAll hR')
  | case3 name s hc hlen hword ih =>
      have hgood : ¬Bad (Parse.lgetc 0 s).2 := fun hb => hbad (h.keeps.macroName _ hb)
      obtain ⟨heq, hR'⟩ := h.lgetc 0 (.inl rfl) hR hgood
      rw [Parse.macroName.eq_def name t, heq, dif_neg hc, if_neg hlen, if_pos hword]
      exact ih hR' hbad
  | case4 name s hc hlen hword =>
      have hgood : ¬Bad (Parse.lgetc 0 s).2 := fun hb => hbad (h.keeps.lungetc _ _ hb)
      obtain ⟨heq, hR'⟩ := h.lgetc 0 (.inl rfl) hR hgood
      rw [Parse.macroName.eq_def name t, heq, dif_neg hc, if_neg hlen, if_neg hword]
      exact .done (h.unget hR')

theorem quoteStep {quotec : Int} (hq : quotec = ch '\'' ∨ quotec = ch '"') {hs : List Int}
    {s t : Lex} (hR : R hs s t) (hbad : ¬Bad (quoteStep quotec s).state) :
    QuoteSim (R []) (quoteStep quotec s) (quoteStep quotec t) := by
  by_cases hesc : (Parse.lgetc quotec s).1 = ch '\\'
  · have hgood' : ¬Bad (Parse.lgetc quotec (Parse.lgetc quotec s).2).2 := by
      intro hb
      apply hbad
      simp only [Parse.quoteStep, hesc]
      split_ifs with h₁ h₂
      · exact absurd h₁ (by decide)
      · exact absurd h₂ (by decide)
      · exact hb
      · exact hb
      · exact h.keeps.nextLine _ hb
      · exact h.keeps.lungetc _ _ hb
    have hgood : ¬Bad (Parse.lgetc quotec s).2 := fun hb => hgood' (h.keeps.lgetc quotec _ hb)
    obtain ⟨heq, hR'⟩ := h.lgetc quotec (.inr hq) hR hgood
    obtain ⟨heq', hR''⟩ := h.lgetc quotec (.inr hq) hR' hgood'
    simp only [Parse.quoteStep, heq, heq', hesc]
    split_ifs with h₁ h₂
    · exact absurd h₁ (by decide)
    · exact absurd h₂ (by decide)
    · exact .eof (h.forgetAll hR'')
    · exact .char (h.forgetAll hR'')
    · exact .newline (h.nextLine (h.forgetAll hR''))
    · exact .char (h.unget hR'')
  · have hgood : ¬Bad (Parse.lgetc quotec s).2 := by
      intro hb
      apply hbad
      simp only [Parse.quoteStep, hesc, if_false]
      split_ifs
      · exact hb
      · exact h.keeps.nextLine _ hb
      · exact hb
      · exact hb
    obtain ⟨heq, hR'⟩ := h.lgetc quotec (.inr hq) hR hgood
    simp only [Parse.quoteStep, heq, hesc, if_false]
    split_ifs
    · exact .eof (h.forgetAll hR')
    · exact .newline (h.nextLine (h.forgetAll hR'))
    · exact .close (h.forgetAll hR')
    · exact .char (h.forgetAll hR')

theorem quoted {quotec : Int} (hq : quotec = ch '\'' ∨ quotec = ch '"') (text : List Byte)
    {s t : Lex} (hR : R [] s t) (hbad : ¬Bad (quoted quotec text s).state) :
    ScanSim (fun _ => R []) (R []) (quoted quotec text s) (quoted quotec text t) := by
  fun_induction Parse.quoted quotec text s generalizing t with
  | case1 text s s' heq =>
      have hstep := h.quoteStep hq hR (by rw [heq]; exact hbad)
      rw [heq] at hstep
      rw [Parse.quoted.eq_def quotec text t]
      generalize Parse.quoteStep quotec t = r at hstep
      cases hstep with
      | eof hR' => exact .eof hR'
  | case2 text s s' heq =>
      have hstep := h.quoteStep hq hR (by rw [heq]; exact hbad)
      rw [heq] at hstep
      rw [Parse.quoted.eq_def quotec text t]
      generalize Parse.quoteStep quotec t = r at hstep
      cases hstep with
      | close hR' => exact .done hR'
  | case3 text s s' heq ih =>
      have hstep := h.quoteStep hq hR
        (by rw [heq]; exact fun hb => hbad (h.keeps.quoted quotec _ hb))
      rw [heq] at hstep
      rw [Parse.quoted.eq_def quotec text t]
      generalize Parse.quoteStep quotec t = r at hstep
      cases hstep with
      | newline hR' => exact ih hR' hbad
  | case4 text s c s' heq hlen =>
      have hstep := h.quoteStep hq hR (by rw [heq]; exact hbad)
      rw [heq] at hstep
      rw [Parse.quoted.eq_def quotec text t]
      generalize Parse.quoteStep quotec t = r at hstep
      cases hstep with
      | char hR' =>
          simp only [if_pos hlen]
          exact .tooLong hR'
  | case5 text s c s' heq hlen ih =>
      have hstep := h.quoteStep hq hR
        (by rw [heq]; exact fun hb => hbad (h.keeps.quoted quotec _ hb))
      rw [heq] at hstep
      rw [Parse.quoted.eq_def quotec text t]
      generalize Parse.quoteStep quotec t = r at hstep
      cases hstep with
      | char hR' =>
          simp only [if_neg hlen]
          exact ih hR' hbad

/-- The characters of a word or number are the ones read last; of the digits among them
the lexers know when they are pushed back. -/
theorem scan (p : Int → Bool) (text : List Byte) {c : Int} {hs : List Int} {s t : Lex}
    (hR : R (c :: hs) s t) (hbad : ¬Bad (scan p text c s).1.state) :
    (scan p text c t).2 = (scan p text c s).2 ∧
      ScanSim
        (fun text' s' t' => ∃ cs, text' = text ++ (c :: cs).map toByte ∧
          (∀ x ∈ cs, p x = true) ∧
          ∀ ds, ds <+: cs.reverse ++ c :: hs → (∀ x ∈ ds, isdigit x = true) → R ds s' t')
        (R []) (scan p text c s).1 (scan p text c t).1 := by
  fun_induction Parse.scan p text c s generalizing t hs with
  | case1 text c s hlen =>
      rw [Parse.scan.eq_def p text c t, if_pos hlen]
      exact ⟨rfl, .tooLong (h.forgetAll hR)⟩
  | case2 text c s hlen hc ih =>
      have hgood : ¬Bad (Parse.lgetc 0 s).2 := fun hb => hbad (h.keeps.scan p _ _ hb)
      obtain ⟨heq, hR'⟩ := h.lgetc 0 (.inl rfl) hR hgood
      rw [Parse.scan.eq_def p text c t, if_neg hlen, heq, dif_pos hc]
      obtain ⟨heq', hsim⟩ := ih hR' hbad
      refine ⟨heq', hsim.mono ?_⟩
      rintro text' s' t' ⟨cs, htext, hcs, hR''⟩
      refine ⟨(Parse.lgetc 0 s).1 :: cs, by simpa using htext, ?_, by simpa using hR''⟩
      intro x hx
      rcases List.mem_cons.1 hx with rfl | hx
      · exact hc.2
      · exact hcs x hx
  | case3 text c s hlen hc =>
      have hgood : ¬Bad (Parse.lgetc 0 s).2 := fun hb => hbad (h.keeps.lungetc _ _ hb)
      obtain ⟨heq, hR'⟩ := h.lgetc 0 (.inl rfl) hR hgood
      rw [Parse.scan.eq_def p text c t, if_neg hlen, heq, dif_neg hc]
      refine ⟨rfl, .done ⟨[], rfl, by simp, ?_⟩⟩
      rintro ds ⟨hs', hds⟩ hdigits
      rw [List.reverse_nil, List.nil_append] at hds
      rw [← hds] at hR'
      exact h.lungetc (h.forget (_ :: ds) hR') hdigits

/-- The same token, and the relation is kept. -/
def SameToken (R : List Int → Lex → Lex → Prop) (r r' : Token × Lex) : Prop :=
  r'.1 = r.1 ∧ R [] r.2 r'.2

theorem lexError (m : Message) {hs : List Int} {s t : Lex} (hR : R hs s t)
    (hbad : ¬Bad (lexError m s).2) : SameToken R (lexError m s) (lexError m t) :=
  ⟨rfl, h.findeol (h.yyerror m hR) hbad⟩

theorem lexQuoted {quotec : Int} (hq : quotec = ch '\'' ∨ quotec = ch '"') {s t : Lex}
    (hR : R [] s t) (hbad : ¬Bad (lexQuoted quotec s).2) :
    SameToken R (lexQuoted quotec s) (lexQuoted quotec t) := by
  have hgood : ¬Bad (Parse.quoted quotec [] s).state := by
    intro hb
    apply hbad
    simp only [Parse.lexQuoted]
    split <;> next heq =>
      rw [heq] at hb
      first | exact hb | exact h.keeps.lexError _ hb | exact h.keeps.val _ _ hb
  have hsim := h.quoted hq [] hR hgood
  simp only [Parse.lexQuoted] at hbad ⊢
  generalize Parse.quoted quotec [] s = r at hsim hbad
  generalize Parse.quoted quotec [] t = r' at hsim
  cases hsim with
  | done hR' => exact ⟨rfl, h.val _ hR'⟩
  | eof hR' => exact ⟨rfl, hR'⟩
  | tooLong hR' => exact h.lexError _ hR' hbad

theorem wordToken (text : List Byte) {s t : Lex} (hR : R [] s t) :
    SameToken R (wordToken text s) (wordToken text t) := by
  simp only [Parse.wordToken]
  split
  · exact ⟨rfl, h.val _ hR⟩
  · exact ⟨rfl, hR⟩

theorem lexWord {c : Int} {hs : List Int} {s t : Lex} (hR : R (c :: hs) s t)
    (hbad : ¬Bad (lexWord c s).2) : SameToken R (lexWord c s) (lexWord c t) := by
  by_cases hword : (isalnum c || c = ch ':' || c = ch '_') = true
  · simp only [Parse.lexWord, if_pos hword] at hbad ⊢
    have hgood : ¬Bad (Parse.scan allowedInString [] c s).1.state := by
      intro hb
      apply hbad
      split <;> next heq =>
        rw [heq] at hb
        first | exact hb | exact h.keeps.lexError _ hb | exact h.keeps.wordToken _ hb
    obtain ⟨-, hsim⟩ := h.scan allowedInString [] hR hgood
    generalize (Parse.scan allowedInString [] c s).1 = r at hsim hbad
    generalize (Parse.scan allowedInString [] c t).1 = r' at hsim
    cases hsim with
    | done hdone =>
        obtain ⟨cs, htext, -, hR'⟩ := hdone
        exact h.wordToken _ (hR' [] ⟨_, rfl⟩ (by simp))
    | eof hR' => exact ⟨rfl, hR'⟩
    | tooLong hR' => exact h.lexError _ hR' hbad
  · simp only [Parse.lexWord, if_neg hword] at hbad ⊢
    split_ifs
    · exact ⟨rfl, h.forgetAll (h.nextLine (h.startLine hR))⟩
    · exact ⟨rfl, h.forgetAll hR⟩
    · exact ⟨rfl, h.forgetAll hR⟩

/-- Digits read are pushed back as they were read. -/
theorem unread (cs hs : List Int) (hcs : ∀ x ∈ cs ++ hs, isdigit x = true)
    {s t : Lex} (hR : R (cs ++ hs) s t) :
    R hs ((cs.map toByte).foldl (fun s b => Parse.lungetc (schar b) s) s)
      ((cs.map toByte).foldl (fun s b => Parse.lungetc (schar b) s) t) := by
  induction cs generalizing s t with
  | nil => exact hR
  | cons x cs ih =>
      obtain ⟨hlo, hhi⟩ := h.range hR
      have hdigit := (isdigit_iff hlo hhi).1 (hcs x (by simp))
      have hrest : ∀ y ∈ cs ++ hs, isdigit y = true := fun y hy => hcs y (List.mem_cons_of_mem _ hy)
      simp only [List.map_cons, List.foldl_cons, schar_toByte hlo (by omega)]
      exact ih hrest (h.lungetc hR hrest)

theorem lexNodigits {c : Int} {cs hs : List Int} (hc : c = ch '-' ∨ isdigit c = true)
    (hcs : ∀ x ∈ cs, isdigit x = true) {s t : Lex}
    (hR : ∀ ds, ds <+: cs.reverse ++ c :: hs → (∀ x ∈ ds, isdigit x = true) → R ds s t)
    (hbad : ¬Bad (lexNodigits ((c :: cs).map toByte) s).2) :
    SameToken R (lexNodigits ((c :: cs).map toByte) s) (lexNodigits ((c :: cs).map toByte) t) := by
  have hcs' : ∀ x ∈ cs.reverse, isdigit x = true := fun x hx => hcs x (List.mem_reverse.1 hx)
  by_cases hdigit : isdigit c = true
  · have hall : ∀ x ∈ cs.reverse ++ [c], isdigit x = true := by
      intro x hx
      rcases List.mem_append.1 hx with hx | hx
      · exact hcs' x hx
      · rwa [List.mem_singleton.1 hx]
    have hR' := h.unread cs.reverse [c] hall (hR _ ⟨hs, by simp⟩ hall)
    rw [List.map_reverse] at hR'
    obtain ⟨hlo, hhi⟩ := h.range hR'
    have hrange := (isdigit_iff hlo hhi).1 hdigit
    simp only [Parse.lexNodigits, List.map_cons, List.tail_cons, List.headD_cons,
      schar_toByte hlo (by omega)] at hbad ⊢
    split_ifs at hbad ⊢
    · exact ⟨rfl, h.forgetAll hR'⟩
    · exact h.lexWord hR' hbad
  · obtain rfl := hc.resolve_right hdigit
    have hR' := h.unread cs.reverse [] (by simpa using hcs)
      (hR _ ⟨ch '-' :: hs, by simp⟩ (by simpa using hcs))
    rw [List.map_reverse] at hR'
    exact ⟨rfl, hR'⟩

theorem lexNumber {c : Int} (hc : c = ch '-' ∨ isdigit c = true) {hs : List Int} {s t : Lex}
    (hR : R (c :: hs) s t) (hbad : ¬Bad (lexNumber c s).2) :
    SameToken R (lexNumber c s) (lexNumber c t) := by
  simp only [Parse.lexNumber] at hbad ⊢
  have hgood : ¬Bad (Parse.scan isdigit [] c s).1.state := by
    intro hb
    apply hbad
    split
    · next heq => rw [heq] at hb; exact hb
    · next heq => rw [heq] at hb; exact h.keeps.lexError _ hb
    · next heq =>
        rw [heq] at hb
        split_ifs
        · exact h.keeps.lexNodigits _ hb
        · split
          · exact h.keeps.val _ _ hb
          · exact h.keeps.lexError _ hb
        · exact h.keeps.lexNodigits _ hb
  obtain ⟨hnext, hsim⟩ := h.scan isdigit [] hR hgood
  rw [hnext]
  generalize (Parse.scan isdigit [] c s).1 = r at hsim hbad
  generalize (Parse.scan isdigit [] c t).1 = r' at hsim
  cases hsim with
  | done hdone =>
      obtain ⟨cs, rfl, hcs, hR'⟩ := hdone
      simp only [List.nil_append] at hbad ⊢
      split_ifs at hbad ⊢
      · exact h.lexNodigits hc hcs hR' hbad
      · have hR'' := hR' [] ⟨_, rfl⟩ (by simp)
        split at hbad
        · exact ⟨rfl, h.val _ hR''⟩
        · exact h.lexError _ hR'' hbad
      · exact h.lexNodigits hc hcs hR' hbad
  | eof hR' => exact ⟨rfl, hR'⟩
  | tooLong hR' => exact h.lexError _ hR' hbad

theorem lexToken {c : Int} {hs : List Int} {s t : Lex} (hR : R (c :: hs) s t)
    (hbad : ¬Bad (lexToken c s).2) : SameToken R (lexToken c s) (lexToken c t) := by
  simp only [Parse.lexToken] at hbad ⊢
  split_ifs at hbad ⊢ with hquote hnumber
  · refine h.lexQuoted ?_ (h.forgetAll hR) hbad
    simpa using hquote
  · refine h.lexNumber ?_ hR hbad
    simpa using hnumber
  · exact h.lexWord hR hbad

theorem lexStart {s t : Lex} (hR : R [] s t) (hbad : ¬Bad (lexStart s).2) :
    (lexStart t).1 = (lexStart s).1 ∧ R [(lexStart s).1] (lexStart s).2 (lexStart t).2 := by
  have hgood : ¬Bad (Parse.skip isBlank s).2 := by
    intro hb
    have hb' := h.keeps.lineno _ (Parse.skip isBlank s).2.file.lineno hb
    apply hbad
    simp only [Parse.lexStart]
    split_ifs
    · exact h.keeps.skip _ hb'
    · exact hb'
  obtain ⟨heq, hR'⟩ := h.skip isBlank hR hgood
  have hR'' := h.startLine hR'
  simp only [Parse.lexStart, heq] at hbad ⊢
  split_ifs at hbad ⊢
  · exact h.skip _ hR'' hbad
  · exact ⟨rfl, hR''⟩

/-- Related lexers read the name of a macro alike. -/
theorem startsMacro {s t : Lex} (hR : R [] s t) (hs : StartsMacro s)
    (hbad : ¬Bad (Parse.macroName [] (Parse.lexStart s).2).state) :
    StartsMacro t ∧ ScanSim (fun _ => R []) (R []) (Parse.macroName [] (Parse.lexStart s).2)
      (Parse.macroName [] (Parse.lexStart t).2) := by
  obtain ⟨heq, hR'⟩ := h.lexStart hR fun hb => hbad (h.keeps.macroName [] hb)
  have hsim := h.macroName [] hR' hbad
  rw [hs.1] at heq hR'
  exact ⟨⟨heq, (h.parsebuf hR').2 hs.2⟩, hsim⟩

/-- Related lexers return the same token and stay related. -/
theorem yylex {s t : Lex} (hR : R [] s t) (hbad : ¬Bad (yylex s).2) :
    SameToken R (yylex s) (yylex t) := by
  fun_induction Parse.yylex s generalizing t with
  | case1 s hs s' hname =>
      obtain ⟨ht, hsim⟩ := h.startsMacro hR hs (by rw [hname]; exact hbad)
      rw [hname] at hsim
      obtain ⟨t', ht', hR'⟩ := hsim.of_eof
      rw [yylex_of_eof ht ht']
      exact ⟨rfl, hR'⟩
  | case2 s hs s' hname =>
      obtain ⟨ht, hsim⟩ := h.startsMacro hR hs
        (by rw [hname]; exact fun hb => hbad (h.keeps.lexError _ hb))
      rw [hname] at hsim
      obtain ⟨t', ht', hR'⟩ := hsim.of_tooLong
      rw [yylex_of_tooLong ht ht']
      exact h.lexError _ hR' hbad
  | case3 s hs name s' hname hval =>
      obtain ⟨ht, hsim⟩ := h.startsMacro hR hs
        (by rw [hname]; exact fun hb => hbad (h.keeps.lexError _ hb))
      rw [hname] at hsim
      obtain ⟨t', ht', hR'⟩ := hsim.of_done
      rw [yylex_of_undefined ht ht' ((h.symget _ hR' fun _ => hbad).trans hval)]
      exact h.lexError _ hR' hbad
  | case4 s hs name s' hname val hval ih =>
      have hgood : ¬Bad s' := fun hb =>
        hbad (h.keeps.yylex (h.keeps.startMacro _ _ _ hb hval))
      obtain ⟨ht, hsim⟩ := h.startsMacro hR hs (by rw [hname]; exact hgood)
      rw [hname] at hsim
      obtain ⟨t', ht', hR'⟩ := hsim.of_done
      rw [yylex_of_expansion ht ht' ((h.symget _ hR' fun hnone => by simp [hnone] at hval).trans hval)]
      have hbuf := macroName_parsebuf_none hname hs.2
      have hbuf' := macroName_parsebuf_none ht' ht.2
      exact ih (h.startMacro val hR' hbuf hbuf') hbad
  | case5 s hs =>
      have hgood : ¬Bad (Parse.lexStart s).2 := fun hb => hbad (h.keeps.lexToken _ hb)
      obtain ⟨heq, hR'⟩ := h.lexStart hR hgood
      have ht : ¬StartsMacro t := by
        rintro ⟨ht₁, ht₂⟩
        rw [heq] at ht₁
        rw [ht₁] at hR'
        exact hs ⟨ht₁, (h.parsebuf hR').1 ht₂⟩
      rw [yylex_of_token ht, heq]
      exact h.lexToken hR' hbad

end LexSim

end Ifconfigd.Parse
