import Ifconfigd.Lib.Levels
import Ifconfigd.Parse.Invariants

/-!
# Accounts of the input

An account of the lexer's input also knows which characters were read last, since these
are the ones that `lungetc` may get: the last one, or the digits of a number. An account
that `lgetc` and `lungetc` keep is kept by everything `yylex` does with the character it
starts with, up to the end of the token.

After the end of the input, and after a quote that was supplied at the end of a file,
nothing that was read before is pushed back.
-/

namespace Ifconfigd.Parse

open CLib

/-- What is left of the open files, the current one in front. -/
def Lex.levels (s : Lex) : List Nat := s.file.rest.length :: s.prev.map fun f => f.rest.length

/-- A digit, as a character. -/
def IsDigit (c : Int) : Prop := 48 ≤ c ∧ c ≤ 57

/-- The characters that may be pushed back after `lgetc(quotec)` returned `c`. -/
def recent (quotec c : Int) (hs : List Int) : List Int :=
  if c = eof ∨ quotec ≠ 0 ∧ c = quotec then [] else c :: hs

/-- The operations of the lexer keep the account `P`. The list holds characters that were
read and not pushed back, the last one in front. -/
structure LexTracks (P : List Int → Lex → Prop) : Prop where
  lgetc : ∀ {hs s} (quotec : Int), quotec = 0 ∨ quotec = ch '\'' ∨ quotec = ch '"' → P hs s →
    P (recent quotec (lgetc quotec s).1 hs) (lgetc quotec s).2
  lungetc : ∀ {c hs s}, c ≠ eof → (∀ x ∈ hs, IsDigit x) → P (c :: hs) s → P hs (lungetc c s)
  forget : ∀ (hs : List Int) {hs' s}, P (hs ++ hs') s → P hs s
  endMacro : ∀ {s}, P [] s → P [] { s with parsebuf := none }
  same : ∀ {hs s s'}, P hs s → s'.levels = s.levels → s'.parsebuf = s.parsebuf →
    s'.pushback = s.pushback → P hs s'

namespace LexTracks

variable {P : List Int → Lex → Prop} (h : LexTracks P)

include h

theorem forgetAll {hs : List Int} {s : Lex} (hP : P hs s) : P [] s := h.forget [] hP

theorem got {hs : List Int} {s : Lex} (hP : P hs s) (hc : (Parse.lgetc 0 s).1 ≠ eof) :
    P ((Parse.lgetc 0 s).1 :: hs) (Parse.lgetc 0 s).2 := by
  have hget := h.lgetc 0 (.inl rfl) hP
  rwa [recent, if_neg (by simpa using hc)] at hget

theorem gotQuoted {quotec : Int} (hq : quotec = ch '\'' ∨ quotec = ch '"') {hs : List Int}
    {s : Lex} (hP : P hs s) (hc : (Parse.lgetc quotec s).1 ≠ eof)
    (hne : (Parse.lgetc quotec s).1 ≠ quotec) :
    P ((Parse.lgetc quotec s).1 :: hs) (Parse.lgetc quotec s).2 := by
  have hget := h.lgetc quotec (.inr hq) hP
  rwa [recent, if_neg (by simp [hc, hne])] at hget

theorem get {quotec : Int} (hq : quotec = 0 ∨ quotec = ch '\'' ∨ quotec = ch '"') {hs : List Int}
    {s : Lex} (hP : P hs s) : P [] (Parse.lgetc quotec s).2 :=
  h.forgetAll (h.lgetc quotec hq hP)

/-- The character read last is pushed back. -/
theorem unget {c : Int} {hs : List Int} {s : Lex} (hc : c ≠ eof) (hP : P (c :: hs) s) :
    P [] (Parse.lungetc c s) :=
  h.lungetc hc (by simp) (h.forget [c] hP)

theorem unget_get {hs : List Int} {s : Lex} (hP : P hs s) :
    P [] (Parse.lungetc (Parse.lgetc 0 s).1 (Parse.lgetc 0 s).2) := by
  by_cases hc : (Parse.lgetc 0 s).1 = eof
  · rw [hc, Parse.lungetc, if_pos rfl]
    exact h.get (.inl rfl) hP
  · exact h.unget hc (h.got hP hc)

theorem skip (p : Int → Bool) {hs : List Int} {s : Lex} (hP : P hs s) :
    P [] (skip p s).2 ∧ ((skip p s).1 ≠ eof → P [(skip p s).1] (skip p s).2) := by
  fun_induction Parse.skip p s generalizing hs with
  | case1 s hc ih => exact ih (h.got hP hc.1)
  | case2 s hc => exact ⟨h.get (.inl rfl) hP, fun hne => h.forget [_] (h.got hP hne)⟩

theorem nextLine {hs : List Int} {s : Lex} (hP : P hs s) : P hs (nextLine s) :=
  h.same hP rfl rfl rfl

theorem findeol {hs : List Int} {s : Lex} (hP : P hs s) : P [] (findeol s) := by
  have hskip := (h.skip (· ≠ ch '\n') (h.endMacro (h.forgetAll hP))).1
  simp only [Parse.findeol]
  split
  · exact h.nextLine hskip
  · exact hskip

theorem lexError (m : Message) {hs : List Int} {s : Lex} (hP : P hs s) : P [] (lexError m s).2 :=
  h.findeol (h.same hP rfl rfl rfl)

theorem macroName (name : List Byte) {hs : List Int} {s : Lex} (hP : P hs s) :
    P [] (macroName name s).state := by
  fun_induction Parse.macroName name s generalizing hs with
  | case1 | case2 => exact h.get (.inl rfl) hP
  | case3 name s hc hlen hword ih => exact ih (h.got hP hc)
  | case4 name s hc hlen hword => exact h.unget hc (h.got hP hc)

theorem quoteStep {quotec : Int} (hq : quotec = ch '\'' ∨ quotec = ch '"') {hs : List Int}
    {s : Lex} (hP : P hs s) : P [] (quoteStep quotec s).state := by
  have h₁ := h.get (.inr hq) hP
  have h₂ := h.get (.inr hq) h₁
  simp only [Parse.quoteStep]
  split_ifs with hc hnl hesc hnext hquote hnl'
  · exact h₁
  · exact h.nextLine h₁
  · exact h₂
  · exact h₂
  · exact h.nextLine h₂
  · simp only [Bool.or_eq_true, decide_eq_true_eq, not_or] at hquote
    exact h.unget hnext (h.gotQuoted hq h₁ hnext hquote.1.1)
  · exact h₁
  · exact h₁

theorem quoted {quotec : Int} (hq : quotec = ch '\'' ∨ quotec = ch '"') (text : List Byte)
    {s : Lex} (hP : P [] s) : P [] (quoted quotec text s).state := by
  fun_induction Parse.quoted quotec text s with
  | case1 text s s' heq | case2 text s s' heq =>
      have hstep := h.quoteStep hq hP
      rw [heq] at hstep
      exact hstep
  | case3 text s s' heq ih =>
      have hstep := h.quoteStep hq hP
      rw [heq] at hstep
      exact ih hstep
  | case4 text s c s' heq hlen =>
      have hstep := h.quoteStep hq hP
      rw [heq] at hstep
      exact hstep
  | case5 text s c s' heq hlen ih =>
      have hstep := h.quoteStep hq hP
      rw [heq] at hstep
      exact ih hstep

theorem scan (p : Int → Bool) (text : List Byte) (c : Int) {hs : List Int} {s : Lex}
    (hP : P hs s) : P [] (scan p text c s).1.state := by
  fun_induction Parse.scan p text c s generalizing hs with
  | case1 => exact h.forgetAll hP
  | case2 text c s hlen hc ih => exact ih (h.got hP hc.1)
  | case3 text c s hlen hc => exact h.unget_get hP

/-- The digits of a number can be pushed back, unless the input ended with it. -/
theorem scanDigits (text : List Byte) (c : Int) {hs : List Int} {s : Lex} (hP : P hs s)
    (hdigits : ∀ x ∈ hs, IsDigit x) (htext : (text ++ [toByte c]).tail = (hs.map toByte).reverse)
    {text' : List Byte} {s' : Lex} (hdone : (Parse.scan isdigit text c s).1 = .done text' s')
    (hne : (Parse.scan isdigit text c s).2 ≠ eof) :
    ∃ hs', P hs' s' ∧ (∀ x ∈ hs', IsDigit x) ∧ text'.tail = (hs'.map toByte).reverse := by
  fun_induction Parse.scan isdigit text c s generalizing hs with
  | case1 => cases hdone
  | case2 text c s hlen hc ih =>
      obtain ⟨hlo, hhi⟩ := lgetc_range (.inl rfl) s
      refine ih (h.got hP hc.1) ?_ ?_ hdone hne
      · intro x hx
        rcases List.mem_cons.1 hx with rfl | hx
        · exact (isdigit_iff hlo hhi).1 hc.2
        · exact hdigits x hx
      · rw [List.tail_append_of_ne_nil (by simp), htext]
        simp
  | case3 text c s hlen hc =>
      obtain ⟨rfl, rfl⟩ := Scan.done.inj hdone
      exact ⟨hs, h.lungetc hne hdigits (h.got hP hne), hdigits, htext⟩

theorem lexQuoted {quotec : Int} (hq : quotec = ch '\'' ∨ quotec = ch '"') {s : Lex}
    (hP : P [] s) : P [] (lexQuoted quotec s).2 := by
  have hscan := h.quoted hq [] hP
  simp only [Parse.lexQuoted]
  split
  · next heq => rw [heq] at hscan; exact hscan
  · next heq => rw [heq] at hscan; exact h.lexError _ hscan
  · next heq => rw [heq] at hscan; exact h.same hscan rfl rfl rfl

theorem wordToken (text : List Byte) {s : Lex} (hP : P [] s) : P [] (wordToken text s).2 := by
  simp only [Parse.wordToken]
  split
  · exact h.same hP rfl rfl rfl
  · exact hP

theorem lexWord (c : Int) {s : Lex} (hP : P [] s) : P [] (lexWord c s).2 := by
  simp only [Parse.lexWord]
  split_ifs
  · have hscan := h.scan allowedInString [] c hP
    split
    · next heq => rw [heq] at hscan; exact hscan
    · next heq => rw [heq] at hscan; exact h.lexError _ hscan
    · next heq => rw [heq] at hscan; exact h.wordToken _ hscan
  · exact h.same hP rfl rfl rfl
  · exact hP
  · exact hP

theorem unread {hs : List Int} (hdigits : ∀ x ∈ hs, IsDigit x) {s : Lex} (hP : P hs s) :
    P [] ((hs.map toByte).foldl (fun s b => Parse.lungetc (schar b) s) s) := by
  induction hs generalizing s with
  | nil => exact hP
  | cons x hs ih =>
      obtain ⟨hlo, hhi⟩ := hdigits x List.mem_cons_self
      have hrest : ∀ y ∈ hs, IsDigit y := fun y hy => hdigits y (List.mem_cons_of_mem x hy)
      rw [List.map_cons, List.foldl_cons, schar_toByte (by omega) (by omega)]
      exact ih hrest (h.lungetc (by rw [eof]; omega) hrest hP)

theorem lexNodigits {text : List Byte} {hs : List Int} {s : Lex} (hP : P hs s)
    (hdigits : ∀ x ∈ hs, IsDigit x) (htext : text.tail = (hs.map toByte).reverse) :
    P [] (lexNodigits text s).2 := by
  have hunread := h.unread hdigits hP
  rw [← List.reverse_reverse (hs.map toByte), ← htext] at hunread
  simp only [Parse.lexNodigits]
  split_ifs
  · exact hunread
  · exact h.lexWord _ hunread

theorem lexNumber (c : Int) {s : Lex} (hP : P [] s) : P [] (lexNumber c s).2 := by
  have hscan := h.scan isdigit [] c hP
  have hdigits := @scanDigits P h [] c [] s hP (by simp) rfl
  simp only [Parse.lexNumber]
  split
  · next heq => rw [heq] at hscan; exact hscan
  · next heq => rw [heq] at hscan; exact h.lexError _ hscan
  · next text s' heq =>
      rw [heq] at hscan
      have hback : (Parse.scan isdigit [] c s).2 ≠ eof → P [] (Parse.lexNodigits text s').2 := by
        intro hne
        obtain ⟨hs, hP', hall, htext⟩ := hdigits heq hne
        exact h.lexNodigits hP' hall htext
      split_ifs with hminus hend
      · subst hminus
        exact h.lexNodigits hscan (by simp) rfl
      · split
        · exact h.same hscan rfl rfl rfl
        · exact h.lexError _ hscan
      · simp only [Bool.or_eq_true, decide_eq_true_eq, not_or] at hend
        exact hback hend.1

theorem lexToken (c : Int) {s : Lex} (hP : P [] s) : P [] (lexToken c s).2 := by
  simp only [Parse.lexToken]
  split_ifs with hquote
  · exact h.lexQuoted (by simpa using hquote) hP
  · exact h.lexNumber c hP
  · exact h.lexWord c hP

theorem lexStart {s : Lex} (hP : P [] s) :
    P [] (lexStart s).2 ∧ ((lexStart s).1 ≠ eof → P [(lexStart s).1] (lexStart s).2) := by
  obtain ⟨hall, hone⟩ := h.skip isBlank hP
  simp only [Parse.lexStart]
  split_ifs
  · exact h.skip _ (h.same hall rfl rfl rfl)
  · exact ⟨h.same hall rfl rfl rfl, fun hne => h.same (hone hne) rfl rfl rfl⟩

end LexTracks

end Ifconfigd.Parse
