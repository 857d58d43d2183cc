import Ifconfigd.Parse.Clean
import Ifconfigd.Parse.MacroUse
import Ifconfigd.Parse.Words

/-!
# Counting lines

The lexer counts the newlines of a file in several places: a newline that is a token, a
newline inside quotes, the end of a line that is skipped, and a continued line. A newline
that was read is in hand until it is counted or pushed back. `LexLines` is the rule for
accounts that know whether there is one in hand.

Such an account is kept for the configuration file itself, which is the last of the open
files: its line number and the newlines ahead in it always make up the same sum.
-/

namespace Ifconfigd.Parse

open CLib Yacc

/-! ## Accounts of newlines -/

/-- How many newlines a character is. -/
def newlines (c : Int) : Nat := if c = ch '\n' then 1 else 0

theorem newlines_of_ne {c : Int} (h : c ≠ ch '\n') : newlines c = 0 := if_neg h

theorem eof_ne_newline : eof ≠ ch '\n' := by decide

/-- A quote, or none. -/
def IsQuotec (quotec : Int) : Prop := quotec = 0 ∨ quotec = ch '\'' ∨ quotec = ch '"'

theorem IsQuotec.ne_newline {quotec : Int} (h : IsQuotec quotec) : quotec ≠ ch '\n' := by
  rcases h with rfl | rfl | rfl <;> decide

theorem first_ne_newline {c : Int} (h : c = ch '-' ∨ isdigit c = true) : toByte c ≠ 10 := by
  rcases h with rfl | h
  · decide
  · exact toByte_ne_of_allowed (allowed_of_isdigit h)

def LexOp.ReadsNewline : LexOp → Prop
  | .lgetc quotec s => (Parse.lgetc quotec s).1 = ch '\n'
  | _ => False

instance : DecidablePred LexOp.ReadsNewline := fun op => by
  cases op <;> simp only [LexOp.ReadsNewline] <;> infer_instance

/-- The operations of the lexer, as far as they are `Ok`, keep the account `P`. The number
says how many newlines were read and neither counted nor pushed back. -/
structure LexLines (Ok : LexOp → Prop) (P : Nat → Lex → Prop) : Prop where
  lgetc : ∀ {quotec s}, IsQuotec quotec → Ok (.lgetc quotec s) → P 0 s →
    P (newlines (lgetc quotec s).1) (lgetc quotec s).2
  unget : ∀ {quotec s}, IsQuotec quotec → Ok (.lgetc quotec s) →
    Ok (.lungetc (Parse.lgetc quotec s).1 (Parse.lgetc quotec s).2) → P 0 s →
    P 0 (lungetc (Parse.lgetc quotec s).1 (Parse.lgetc quotec s).2)
  lungetc : ∀ {c s}, toByte c ≠ 10 → Ok (.lungetc c s) → P 0 s → P 0 (lungetc c s)
  nextLine : ∀ {s}, P 1 s → P 0 (nextLine s)
  yyerror : ∀ {m s}, P 0 s → P 0 (yyerror m s)
  endMacro : ∀ {s}, P 0 s → P 0 { s with parsebuf := none }
  val : ∀ {s v}, P 0 s → P 0 { s with val := v }

namespace LexLines

variable {Ok : LexOp → Prop} {P : Nat → Lex → Prop} (h : LexLines Ok P)

include h

theorem get {quotec : Int} {s : Lex} (hq : IsQuotec quotec) (hok : Ok (.lgetc quotec s))
    (hP : P 0 s) (hc : (Parse.lgetc quotec s).1 ≠ ch '\n') : P 0 (Parse.lgetc quotec s).2 := by
  have hget := h.lgetc hq hok hP
  rwa [newlines_of_ne hc] at hget

theorem skip {p : Int → Bool} (hp : p (ch '\n') = false) {s : Lex}
    (hok : ∀ op ∈ skipOps p s, Ok op) (hP : P 0 s) :
    P (newlines (skip p s).1) (skip p s).2 := by
  fun_induction Parse.skip p s with
  | case1 s hc ih =>
      rw [skipOps.eq_def, dif_pos hc, List.forall_mem_cons] at hok
      refine ih hok.2 (h.get (.inl rfl) hok.1 hP fun heq => ?_)
      rw [heq, hp] at hc
      exact Bool.false_ne_true hc.2
  | case2 s hc =>
      rw [skipOps.eq_def, dif_neg hc, List.forall_mem_singleton] at hok
      exact h.lgetc (.inl rfl) hok hP

theorem findeol {s : Lex} (hok : ∀ op ∈ findeolOps s, Ok op) (hP : P 0 s) : P 0 (findeol s) := by
  have hskip := h.skip (p := (· ≠ ch '\n')) (by simp) hok (h.endMacro hP)
  simp only [Parse.findeol]
  split
  · next heq =>
      rw [heq] at hskip
      exact h.nextLine hskip
  · next hne => rwa [newlines_of_ne hne] at hskip

theorem lexError {m : Message} {s : Lex} (hok : ∀ op ∈ lexErrorOps m s, Ok op) (hP : P 0 s) :
    P 0 (lexError m s).2 := h.findeol hok (h.yyerror hP)

/-- The name of a macro. The character that makes it too long is dropped. -/
theorem macroName (name : List Byte) {s : Lex} (hok : ∀ op ∈ macroNameOps name.length s, Ok op)
    (hlost : ∀ s', macroName name s = .tooLong s' →
      ∀ op ∈ macroNameOps name.length s, ¬op.ReadsNewline) (hP : P 0 s) :
    P 0 (macroName name s).state := by
  fun_induction Parse.macroName name s with
  | case1 name s hc =>
      rw [macroNameOps.eq_def, dif_pos hc, List.forall_mem_singleton] at hok
      exact h.get (.inl rfl) hok hP (by rw [hc]; decide)
  | case2 name s hc hlen =>
      rw [macroNameOps.eq_def, dif_neg hc, if_pos hlen] at hok hlost
      exact h.get (.inl rfl) (hok _ List.mem_cons_self) hP (hlost _ rfl _ List.mem_cons_self)
  | case3 name s hc hlen hword ih =>
      rw [macroNameOps.eq_def, dif_neg hc, if_neg hlen, if_pos hword] at hok hlost
      rw [List.length_append, List.length_singleton] at ih
      simp only [List.forall_mem_cons] at hok hlost
      refine ih hok.2.2 (fun s' hs' => (hlost s' hs').2.2) (h.get (.inl rfl) hok.1 hP fun heq => ?_)
      rw [heq] at hword
      exact absurd hword (by decide)
  | case4 name s hc hlen hword =>
      rw [macroNameOps.eq_def, dif_neg hc, if_neg hlen, if_neg hword] at hok
      simp only [List.forall_mem_cons] at hok
      exact h.unget (.inl rfl) hok.1 hok.2.2.1 hP

theorem quoteStep {quotec : Int} (hq : IsQuotec quotec) {s : Lex}
    (hok : ∀ op ∈ quoteStepOps quotec s, Ok op) (hP : P 0 s) : P 0 (quoteStep quotec s).state := by
  rw [quoteStepOps, List.forall_mem_cons] at hok
  obtain ⟨hfirst, hok⟩ := hok
  have hget := h.lgetc hq hfirst hP
  simp only [Parse.quoteStep]
  split_ifs with hc hnl hesc hnext hquote hnl'
  · rwa [hc, newlines_of_ne (by decide)] at hget
  · rw [hnl] at hget
    exact h.nextLine hget
  all_goals
    have hhave : P 0 (Parse.lgetc quotec s).2 := by rwa [newlines_of_ne hnl] at hget
  · rw [if_pos hesc, List.forall_mem_cons] at hok
    exact h.get hq hok.1 hhave (by rw [hnext]; decide)
  · rw [if_pos hesc, List.forall_mem_cons] at hok
    refine h.get hq hok.1 hhave fun heq => ?_
    simp only [hesc, heq, Bool.or_eq_true, decide_eq_true_eq] at hquote
    rcases hquote with (hquote | hquote) | hquote
    · exact hq.ne_newline hquote.symm
    · cases hquote
    · cases hquote
  · rw [if_pos hesc, List.forall_mem_cons] at hok
    have hsecond := h.lgetc hq hok.1 hhave
    rw [hnl'] at hsecond
    exact h.nextLine hsecond
  · have hends : ¬((Parse.lgetc quotec (Parse.lgetc quotec s).2).1 = eof ||
        (Parse.lgetc quotec (Parse.lgetc quotec s).2).1 = quotec ||
        (Parse.lgetc quotec (Parse.lgetc quotec s).2).1 = ch '\n') = true := by
      simp only [Bool.or_eq_true, decide_eq_true_eq, not_or] at hquote ⊢
      exact ⟨⟨hnext, hquote.1.1⟩, hnl'⟩
    rw [if_pos hesc, List.forall_mem_cons, if_neg hends, List.forall_mem_singleton] at hok
    exact h.unget hq hok.1 hok.2 hhave
  · exact hhave
  · exact hhave

theorem quoted {quotec : Int} (hq : IsQuotec quotec) (text : List Byte) {s : Lex}
    (hok : ∀ op ∈ quotedOps quotec text.length s, Ok op) (hP : P 0 s) :
    P 0 (quoted quotec text s).state := by
  fun_induction Parse.quoted quotec text s with
  | case1 text s s' heq =>
      rw [quotedOps.eq_def, heq] at hok
      have hstep := h.quoteStep hq hok hP
      rw [heq] at hstep
      exact hstep
  | case2 text s s' heq =>
      rw [quotedOps.eq_def, heq] at hok
      have hstep := h.quoteStep hq (fun op hop => hok op (List.mem_append_left _ hop)) hP
      rw [heq] at hstep
      exact hstep
  | case3 text s s' heq ih =>
      rw [quotedOps.eq_def, heq] at hok
      have hstep := h.quoteStep hq (fun op hop => hok op (List.mem_append_left _ hop)) hP
      rw [heq] at hstep
      exact ih (fun op hop => hok op (List.mem_append_right _ hop)) hstep
  | case4 text s c s' heq hlen =>
      rw [quotedOps.eq_def, heq] at hok
      simp only [if_pos hlen] at hok
      have hstep := h.quoteStep hq hok hP
      rw [heq] at hstep
      exact hstep
  | case5 text s c s' heq hlen ih =>
      rw [quotedOps.eq_def, heq] at hok
      simp only [if_neg hlen] at hok
      have hstep := h.quoteStep hq (fun op hop => hok op (List.mem_append_left _ hop)) hP
      rw [heq] at hstep
      rw [List.length_append, List.length_singleton] at ih
      exact ih (fun op hop => hok op (List.mem_append_right _ (List.mem_cons_of_mem _ hop))) hstep

theorem scan {p : Int → Bool} (hp : p (ch '\n') = false) (text : List Byte) (c : Int) {s : Lex}
    (hok : ∀ op ∈ scanOps p text.length s, Ok op) (hP : P 0 s) :
    P 0 (scan p text c s).1.state := by
  fun_induction Parse.scan p text c s with
  | case1 => exact hP
  | case2 text c s hlen hc ih =>
      rw [scanOps.eq_def, if_neg hlen, dif_pos hc] at hok
      simp only [List.forall_mem_cons] at hok
      rw [List.length_append, List.length_singleton] at ih
      refine ih hok.2.2 (h.get (.inl rfl) hok.2.1 hP fun heq => ?_)
      rw [heq, hp] at hc
      exact Bool.false_ne_true hc.2
  | case3 text c s hlen hc =>
      rw [scanOps.eq_def, if_neg hlen, dif_neg hc] at hok
      simp only [List.forall_mem_cons] at hok
      exact h.unget (.inl rfl) hok.2.1 hok.2.2.1 hP

theorem lexQuoted {quotec : Int} (hq : IsQuotec quotec) {s : Lex}
    (hok : ∀ op ∈ lexQuotedOps quotec s, Ok op) (hP : P 0 s) : P 0 (lexQuoted quotec s).2 := by
  rw [lexQuotedOps, List.forall_mem_append] at hok
  have hscan := h.quoted hq [] hok.1 hP
  simp only [Parse.lexQuoted]
  split
  · next heq => rw [heq] at hscan; exact hscan
  · next heq => rw [heq] at hscan hok; exact h.lexError hok.2 hscan
  · next heq => rw [heq] at hscan; exact h.val hscan

theorem lexWord {c : Int} (hc : c ≠ ch '\n') {s : Lex} (hok : ∀ op ∈ lexWordOps c s, Ok op)
    (hP : P 0 s) : P 0 (lexWord c s).2 := by
  rw [lexWordOps] at hok
  simp only [Parse.lexWord]
  split_ifs with hword
  · rw [if_pos hword, List.forall_mem_append] at hok
    have hscan := h.scan (by decide) [] c hok.1 hP
    split
    · next heq => rw [heq] at hscan; exact hscan
    · next heq => rw [heq] at hscan hok; exact h.lexError hok.2 hscan
    · next heq =>
        rw [heq] at hscan
        simp only [wordToken]
        split
        · exact h.val hscan
        · exact hscan
  · exact hP
  · exact hP

theorem unread {bs : List Byte} (hbs : 10 ∉ bs) {s : Lex}
    (hok : ∀ op ∈ unreadOps bs s, Ok op) (hP : P 0 s) :
    P 0 (bs.foldl (fun s b => Parse.lungetc (schar b) s) s) := by
  induction bs generalizing s with
  | nil => exact hP
  | cons b bs ih =>
      rw [List.mem_cons, not_or] at hbs
      simp only [unreadOps, List.forall_mem_cons] at hok
      exact ih hbs.2 hok.2.2 (h.lungetc (by rw [toByte_schar]; exact Ne.symm hbs.1) hok.2.1 hP)

theorem lexNodigits {text : List Byte} (htext : 10 ∉ text) {s : Lex}
    (hok : ∀ op ∈ lexNodigitsOps text s, Ok op) (hP : P 0 s) : P 0 (lexNodigits text s).2 := by
  simp only [lexNodigitsOps, List.forall_mem_append, List.forall_mem_cons] at hok
  have hunread := h.unread (fun hb => htext (List.mem_of_mem_tail (List.mem_reverse.1 hb))) hok.1 hP
  simp only [Parse.lexNodigits]
  split_ifs with hminus
  · exact hunread
  · rw [if_neg hminus] at hok
    refine h.lexWord (fun hhead => ?_) hok.2.2 hunread
    cases text with
    | nil => cases hhead
    | cons b text => exact htext ((schar_inj (b := 10)).1 hhead ▸ List.mem_cons_self)

theorem lexNumber {c : Int} (hc : c = ch '-' ∨ isdigit c = true) {s : Lex}
    (hok : ∀ op ∈ lexNumberOps c s, Ok op) (hP : P 0 s) : P 0 (lexNumber c s).2 := by
  simp only [lexNumberOps, List.forall_mem_append] at hok
  have hscan := h.scan (by decide) [] c hok.1 hP
  simp only [Parse.lexNumber]
  split
  · next heq => rw [heq] at hscan; exact hscan
  · next heq => rw [heq] at hscan hok; exact h.lexError hok.2 hscan
  · next text s' heq =>
      rw [heq] at hscan hok
      simp only [List.forall_mem_cons] at hok
      have htext : 10 ∉ text := scan_oneLine
        (fun c hc => toByte_ne_of_allowed (allowed_of_isdigit hc)) (first_ne_newline hc) (by simp) heq
      split_ifs with hminus hend
      · rw [if_pos hminus] at hok
        exact h.lexNodigits htext hok.2.2 hscan
      · rw [if_neg hminus, if_pos hend, List.forall_mem_cons] at hok
        split
        · exact h.val hscan
        · next herr =>
            rw [herr] at hok
            exact h.lexError hok.2.2.2 hscan
      · rw [if_neg hminus, if_neg hend] at hok
        exact h.lexNodigits htext hok.2.2 hscan

theorem lexToken {c : Int} (hc : c ≠ ch '\n') {s : Lex} (hok : ∀ op ∈ lexTokenOps c s, Ok op)
    (hP : P 0 s) : P 0 (lexToken c s).2 := by
  rw [lexTokenOps] at hok
  simp only [Parse.lexToken]
  split_ifs with hquote hnumber
  · rw [if_pos hquote] at hok
    exact h.lexQuoted (.inr (by simpa using hquote)) hok hP
  · rw [if_neg hquote, if_pos hnumber] at hok
    exact h.lexNumber (by simpa using hnumber) hok hP
  · rw [if_neg hquote, if_neg hnumber] at hok
    exact h.lexWord hc hok hP

end LexLines

/-! ## The last of the open files -/

/-- The last of the open files, with `f` the current one. -/
def rootFile (f : File) (prev : List File) : File := prev.getLast?.getD f

theorem rootFile_cons (f p : File) (ps : List File) : rootFile f (p :: ps) = rootFile p ps := by
  rw [rootFile, List.getLast?_cons, Option.getD_some, rootFile]

theorem root_eq (s : Lex) : s.root = rootFile s.file s.prev := rfl

/-- What is ahead in the last of the open files. -/
def Lex.rootAhead (s : Lex) : List Byte :=
  if s.prev = [] then s.pushback ++ s.file.rest else s.root.rest

theorem rootFile_of_ne {prev : List File} (h : prev ≠ []) (f f' : File) :
    rootFile f prev = rootFile f' prev := by
  cases prev with
  | nil => exact absurd rfl h
  | cons p ps => rw [rootFile_cons, rootFile_cons]

theorem rootFile_congr {f f' : File} (hlineno : f'.lineno = f.lineno) (hrest : f'.rest = f.rest)
    (prev : List File) : (rootFile f' prev).lineno = (rootFile f prev).lineno ∧
      (rootFile f' prev).rest = (rootFile f prev).rest := by
  cases prev with
  | nil => exact ⟨hlineno, hrest⟩
  | cons p ps => rw [rootFile_of_ne (List.cons_ne_nil p ps) f' f]; exact ⟨rfl, rfl⟩

section Root

variable {s : Lex}

theorem root_of_nil (h : s.prev = []) : s.root = s.file := by
  rw [root_eq, h]
  rfl

theorem rootAhead_of_nil (h : s.prev = []) : s.rootAhead = s.pushback ++ s.file.rest := if_pos h

theorem rootAhead_of_ne (h : s.prev ≠ []) : s.rootAhead = s.root.rest := if_neg h

/-- What `lgetc` takes from the last of the open files. -/
structure Takes (s : Lex) (r : Int × Lex) (w : List Byte) : Prop where
  ahead : s.rootAhead = w ++ r.2.rootAhead
  lineno : r.2.root.lineno + (if r.2.prev = [] then newlines r.1 else 0) =
    s.root.lineno + w.count 10

/-- Nothing is taken from it, and no newline that is its own is in hand. -/
theorem takes_nil {r : Int × Lex} (hahead : r.2.rootAhead = s.rootAhead)
    (hlineno : r.2.root.lineno = s.root.lineno) (hc : r.2.prev = [] → r.1 ≠ ch '\n') :
    Takes s r [] := by
  refine ⟨hahead.symm, ?_⟩
  split
  · next hnil => rw [newlines_of_ne (hc hnil), hlineno, List.count_nil]
  · rw [hlineno, List.count_nil]

theorem newlines_schar (b : Byte) : newlines (schar b) = [b].count 10 := by
  rw [newlines, List.count_singleton]
  by_cases hb : b = 10
  · subst hb
    rfl
  · have hne : schar b ≠ ch '\n' := fun heq => hb ((schar_inj (b := 10)).1 heq)
    rw [if_neg hne, if_neg (by simpa using hb)]

theorem newlines_uchar (b : Byte) : newlines (uchar b) = [b].count 10 := by
  rw [newlines, List.count_singleton]
  by_cases hb : b = 10
  · subst hb
    rfl
  · rw [if_neg fun heq => hb ?_, if_neg (by simpa using hb)]
    rw [← toByte_uchar b, heq]
    decide

theorem joinLines_takes (rest : List Byte) (fl vl : Nat) :
    ∃ w, rest = w ++ (joinLines rest fl vl).2.1 ∧
      match (joinLines rest fl vl).1 with
      | none => (joinLines rest fl vl).2.2.1 = fl + w.count 10
      | some b => (∃ w', w = w' ++ [b]) ∧
          (joinLines rest fl vl).2.2.1 + newlines (uchar b) = fl + w.count 10 := by
  fun_induction joinLines rest fl vl with
  | case1 fl vl => exact ⟨[], rfl, rfl⟩
  | case2 b rest fl vl hb => exact ⟨[b], rfl, ⟨[], rfl⟩, by rw [newlines_uchar]⟩
  | case3 b fl vl hb =>
      obtain rfl : b = 92 := not_not.1 hb
      exact ⟨[92], rfl, rfl⟩
  | case4 b fl vl hb next rest hnext =>
      obtain rfl : b = 92 := not_not.1 hb
      refine ⟨[92, next], rfl, ⟨[92], rfl⟩, ?_⟩
      rw [newlines_uchar, List.count_cons_of_ne (by decide : (92 : Byte) ≠ 10)]
  | case5 b fl vl hb next rest hnext ih =>
      obtain rfl : b = 92 := not_not.1 hb
      obtain rfl : next = 10 := not_not.1 hnext
      obtain ⟨w, hrest, hmatch⟩ := ih
      refine ⟨92 :: 10 :: w, by rw [List.cons_append, List.cons_append, ← hrest], ?_⟩
      rw [List.count_cons_of_ne (by decide : (92 : Byte) ≠ 10), List.count_cons_self]
      split at hmatch
      · omega
      · obtain ⟨⟨w', rfl⟩, hcount⟩ := hmatch
        exact ⟨⟨92 :: 10 :: w', rfl⟩, by omega⟩

theorem popWhileEof_takes (f : File) {prev : List File} (hprev : prev ≠ []) :
    let r := popWhileEof f prev
    (rootFile r.2.1 r.2.2).lineno = (rootFile f prev).lineno ∧
      (r.2.2 ≠ [] ∧ (rootFile r.2.1 r.2.2).rest = (rootFile f prev).rest ∨
        r.2.2 = [] ∧ ((∃ b, r.1 = uchar b ∧ (rootFile f prev).rest = b :: r.2.1.rest) ∨
          r.1 = eof ∧ (rootFile f prev).rest = r.2.1.rest)) := by
  fun_induction popWhileEof f prev with
  | case1 => exact absurd rfl hprev
  | case2 f p ps hrest ih =>
      obtain ⟨hlineno, hsame⟩ := @rootFile_congr p { p with errors := p.errors + f.errors } rfl rfl ps
      simp only [rootFile_cons]
      rw [← hlineno, ← hsame]
      cases ps with
      | nil => exact ⟨rfl, .inr ⟨rfl, .inr ⟨rfl, rfl⟩⟩⟩
      | cons q qs => exact ih (List.cons_ne_nil q qs)
  | case3 f p ps b rest hrest =>
      simp only [rootFile_cons]
      cases ps with
      | nil => exact ⟨rfl, .inr ⟨rfl, .inl ⟨b, rfl, hrest⟩⟩⟩
      | cons q qs => exact ⟨rfl, .inl ⟨List.cons_ne_nil q qs, rfl⟩⟩

/-- A character is taken from the current file or the pushback buffer. -/
theorem takes_char {r : Int × Lex} {w : List Byte} (hprev : r.2.prev = s.prev)
    (hahead : s.pushback ++ s.file.rest = w ++ (r.2.pushback ++ r.2.file.rest))
    (hlineno : r.2.file.lineno + newlines r.1 = s.file.lineno + w.count 10) :
    Takes s r (if s.prev = [] then w else []) := by
  by_cases hnil : s.prev = []
  · have hnil' := hprev.trans hnil
    rw [if_pos hnil]
    refine ⟨?_, ?_⟩
    · rw [rootAhead_of_nil hnil, rootAhead_of_nil hnil', hahead]
    · rw [if_pos hnil', root_of_nil hnil, root_of_nil hnil', hlineno]
  · have hne := fun hnil' => hnil (hprev.symm.trans hnil')
    have hroot : r.2.root = s.root := by
      rw [root_eq, root_eq, hprev]
      exact rootFile_of_ne hnil _ _
    rw [if_neg hnil]
    refine takes_nil ?_ (by rw [hroot]) fun hnil' => absurd hnil' hne
    rw [rootAhead_of_ne hnil, rootAhead_of_ne hne, hroot]

theorem getcJoined_takes (hpush : s.pushback = []) :
    ∃ w, Takes s (getcJoined s) w ∧ ((getcJoined s).2.prev = [] → (getcJoined s).1 ≠ eof →
      ∃ w', w = w' ++ [toByte (getcJoined s).1]) := by
  obtain ⟨w, hrest, hmatch⟩ := joinLines_takes s.file.rest s.file.lineno s.lineno
  simp only [getcJoined]
  split
  · next b hb =>
      rw [hb] at hmatch
      obtain ⟨⟨w', rfl⟩, hlineno⟩ := hmatch
      refine ⟨_, takes_char rfl (by rw [hpush]; exact hrest) hlineno, fun hnil _ => ⟨w', ?_⟩⟩
      change s.prev = [] at hnil
      rw [if_pos hnil, toByte_uchar]
  · next hb =>
      rw [hb] at hmatch
      by_cases hprev : s.prev = []
      · refine ⟨_, takes_char (w := w) ?_ ?_ ?_, fun _ hne => ?_⟩
        · simp only [hprev, popWhileEof]
        · simpa only [hprev, popWhileEof, hpush, List.nil_append] using hrest
        · simp only [hprev, popWhileEof, newlines_of_ne eof_ne_newline]
          exact hmatch
        · simp only [hprev, popWhileEof, ne_eq, not_true_eq_false] at hne
      · have hroot (f : File) : rootFile f s.prev = s.root := rootFile_of_ne hprev _ _
        obtain ⟨hlineno, hcases⟩ := popWhileEof_takes
          { s.file with
            rest := (joinLines s.file.rest s.file.lineno s.lineno).2.1
            lineno := (joinLines s.file.rest s.file.lineno s.lineno).2.2.1 } hprev
        rw [hroot] at hlineno hcases
        rcases hcases with ⟨hne, hsame⟩ | ⟨hnil, ⟨b, hb, hcons⟩ | ⟨heof, hsame⟩⟩
        · refine ⟨[], takes_nil ?_ hlineno fun hnil => absurd hnil hne, fun hnil => absurd hnil hne⟩
          rw [rootAhead_of_ne hprev, rootAhead_of_ne hne]
          exact hsame
        · refine ⟨[b], ⟨?_, ?_⟩, fun _ _ => ⟨[], ?_⟩⟩
          · rw [rootAhead_of_ne hprev, rootAhead_of_nil hnil, hcons, hpush]
            rfl
          · rw [if_pos hnil, hb, newlines_uchar]
            exact congrArg (· + _) hlineno
          · rw [hb, toByte_uchar, List.nil_append]
        · refine ⟨[], takes_nil ?_ hlineno fun _ => ?_, fun _ hne => absurd heof hne⟩
          · rw [rootAhead_of_ne hprev, rootAhead_of_nil hnil, hsame, hpush]
            rfl
          · rw [heof]
            exact eof_ne_newline

theorem getcQuoted_takes {quotec : Int} (hq : IsQuotec quotec) (hpush : s.pushback = []) :
    ∃ w, Takes s (getcQuoted quotec s) w := by
  simp only [getcQuoted]
  split
  · next b rest hrest =>
      refine ⟨_, takes_char (w := [b]) rfl ?_ (by rw [newlines_uchar])⟩
      rw [hrest, hpush]
      rfl
  · next hrest =>
      cases hprev : s.prev with
      | nil =>
          simp only [popfile, yyerror, hprev]
          refine ⟨[], takes_nil ?_ ?_ fun _ => eof_ne_newline⟩
          · rw [rootAhead_of_nil hprev]
            rfl
          · rw [root_of_nil hprev]
            rfl
      | cons p ps =>
          have hne : s.prev ≠ [] := hprev ▸ List.cons_ne_nil p ps
          have hroot : s.root = rootFile p ps := by rw [root_eq, hprev, rootFile_cons]
          obtain ⟨hlineno, hsame⟩ :=
            @rootFile_congr p { p with errors := p.errors + (s.file.errors + 1) } rfl rfl ps
          simp only [popfile, yyerror, hprev]
          refine ⟨[], takes_nil ?_ ?_ fun _ => hq.ne_newline⟩
          · rw [rootAhead_of_ne hne, hroot, ← hsame]
            cases ps with
            | nil => rw [rootAhead_of_nil rfl, hpush]; rfl
            | cons q qs => exact rootAhead_of_ne (List.cons_ne_nil q qs)
          · rw [hroot]
            exact hlineno

theorem lgetcInput_takes {quotec : Int} (hq : IsQuotec quotec) (s : Lex) :
    ∃ w, Takes s (lgetcInput quotec s) w ∧
      (quotec = 0 → (lgetcInput quotec s).2.prev = [] → (lgetcInput quotec s).1 ≠ eof →
        ∃ w', w = w' ++ [toByte (lgetcInput quotec s).1]) := by
  simp only [lgetcInput]
  split
  · next b bs hpush =>
      refine ⟨_, takes_char (w := [b]) rfl (by rw [hpush]; rfl) ?_, fun _ hnil _ => ⟨[], ?_⟩⟩
      · rw [newlines_schar]
      · change s.prev = [] at hnil
        rw [if_pos hnil, toByte_schar, List.nil_append]
  · next hpush =>
      split
      · next hquotec =>
          obtain ⟨w, htakes⟩ := getcQuoted_takes hq hpush
          exact ⟨w, htakes, fun hzero => absurd hzero hquotec⟩
      · obtain ⟨w, htakes, hlast⟩ := getcJoined_takes hpush
        exact ⟨w, htakes, fun _ => hlast⟩

theorem lgetc_takes {quotec : Int} (hq : IsQuotec quotec) (h : s.Bounded) (hplain : PlainMacro s) :
    ∃ w, Takes s (lgetc quotec s) w ∧
      (quotec = 0 → (lgetc quotec s).2.prev = [] → (lgetc quotec s).2.parsebuf = none →
        (lgetc quotec s).1 ≠ eof → ∃ w', w = w' ++ [toByte (lgetc quotec s).1]) := by
  have hinput (s' : Lex) (hs' : s'.file = s.file ∧ s'.prev = s.prev ∧ s'.pushback = s.pushback)
      (hget : lgetc quotec s = lgetcInput quotec s') :
      ∃ w, Takes s (lgetc quotec s) w ∧
        (quotec = 0 → (lgetc quotec s).2.prev = [] → (lgetc quotec s).2.parsebuf = none →
          (lgetc quotec s).1 ≠ eof → ∃ w', w = w' ++ [toByte (lgetc quotec s).1]) := by
    obtain ⟨w, ⟨hahead, hlineno⟩, hlast⟩ := lgetcInput_takes hq s'
    have hroot : s'.root = s.root := by rw [root_eq, root_eq, hs'.1, hs'.2.1]
    have hsame : s'.rootAhead = s.rootAhead := by
      rw [Lex.rootAhead, Lex.rootAhead, hroot, hs'.1, hs'.2.1, hs'.2.2]
    rw [hsame] at hahead
    rw [hroot] at hlineno
    rw [hget]
    exact ⟨w, ⟨hahead, hlineno⟩, fun hzero hnil _ => hlast hzero hnil⟩
  cases hbuf : s.parsebuf with
  | none => exact hinput s ⟨rfl, rfl, rfl⟩ (by simp [lgetc, hbuf])
  | some buf =>
      obtain ⟨text, i⟩ := buf
      have hi := (h.parsebuf text i hbuf).1
      cases hb : text.bytes[i.toNat]? with
      | none =>
          exact hinput { s with parsebuf := none } ⟨rfl, rfl, rfl⟩ (by simp [lgetc, hbuf, hi, hb])
      | some b =>
          have hget : lgetc quotec s = (schar b, { s with parsebuf := some ⟨text, i + 1⟩ }) := by
            simp [lgetc, hbuf, hi, hb]
          rw [hget]
          refine ⟨[], takes_nil rfl rfl fun _ heq => ?_, fun _ _ hnone => by cases hnone⟩
          rw [(schar_inj (b := 10)).1 heq] at hb
          exact hplain text i hbuf (List.mem_of_getElem? hb)

end Root

/-! ## The account -/

/-- The line number of the last of the open files and the newlines ahead in it, with `k` more
in hand, make up `n`. -/
structure Balance (n k : Nat) (s : Lex) : Prop where
  plain : PlainMacro s
  sum : s.root.lineno + s.rootAhead.count 10 + (if s.prev = [] then k else 0) = n

section Balance

variable {n k : Nat} {s : Lex}

theorem Balance.same {s' : Lex} (h : Balance n k s) (hbuf : s'.parsebuf = s.parsebuf)
    (hpush : s'.pushback = s.pushback) (hprev : s'.prev = s.prev)
    (hlineno : s'.file.lineno = s.file.lineno) (hrest : s'.file.rest = s.file.rest) :
    Balance n k s' := by
  obtain ⟨hroot, hsame⟩ := rootFile_congr hlineno hrest s.prev
  refine ⟨fun text i hsome => h.plain text i (hbuf ▸ hsome), ?_⟩
  rw [← h.sum, Lex.rootAhead, Lex.rootAhead, root_eq, root_eq, hprev, hpush, hrest, hroot, hsame]

theorem Balance.lgetc {quotec : Int} (hq : IsQuotec quotec) (hbounded : s.Bounded)
    (h : Balance n 0 s) : Balance n (newlines (lgetc quotec s).1) (lgetc quotec s).2 := by
  obtain ⟨w, ⟨hahead, hlineno⟩, -⟩ := lgetc_takes hq hbounded h.plain
  refine ⟨(loopKeeps_macroText _).lgetc quotec s h.plain, ?_⟩
  have hsum := h.sum
  rw [hahead, List.count_append, ite_self] at hsum
  omega

theorem lungetc_file (c : Int) (s : Lex) : (lungetc c s).file = s.file ∧ (lungetc c s).prev = s.prev :=
  lungetc_holds (P := fun s' => s'.file = s.file ∧ s'.prev = s.prev) (fun _ _ h => h) (fun _ _ h => h)
    ⟨rfl, rfl⟩ c

theorem lungetc_pushback (c : Int) (s : Lex) :
    (lungetc c s).pushback = s.pushback ∨ (lungetc c s).pushback = toByte c :: s.pushback := by
  have hpush (s' : Lex) (hs' : s'.pushback = s.pushback) :
      (lungetc.push c s').pushback = s.pushback ∨
        (lungetc.push c s').pushback = toByte c :: s.pushback := by
    simp only [lungetc.push]
    split
    · exact .inr (by rw [hs'])
    · exact .inl hs'
  simp only [lungetc]
  split
  · exact .inl rfl
  · split
    · exact hpush s rfl
    · split
      · exact .inl rfl
      · exact hpush _ rfl

theorem rootAhead_lungetc (c : Int) (s : Lex) :
    (lungetc c s).root = s.root ∧ ((lungetc c s).rootAhead = s.rootAhead ∨
      s.prev = [] ∧ (lungetc c s).rootAhead = toByte c :: s.rootAhead) := by
  obtain ⟨hfile, hprev⟩ := lungetc_file c s
  have hroot : (lungetc c s).root = s.root := by rw [root_eq, root_eq, hfile, hprev]
  refine ⟨hroot, ?_⟩
  rw [Lex.rootAhead, Lex.rootAhead, hroot, hfile, hprev]
  split
  · next hnil =>
      rcases lungetc_pushback c s with hpush | hpush
      · exact .inl (by rw [hpush])
      · exact .inr ⟨hnil, by rw [hpush]; rfl⟩
  · exact .inl rfl

theorem Balance.lungetc {c : Int} (hc : toByte c ≠ 10) (h : Balance n 0 s) :
    Balance n 0 (lungetc c s) := by
  refine ⟨(loopKeeps_macroText _).lungetc c s h.plain, ?_⟩
  have hsum := h.sum
  obtain ⟨hroot, hahead | ⟨-, hahead⟩⟩ := rootAhead_lungetc c s
  · rw [ite_self] at hsum ⊢
    rw [hroot, hahead, hsum]
  · rw [ite_self] at hsum ⊢
    rw [hroot, hahead, List.count_cons_of_ne hc, hsum]

theorem Balance.push_newline (h : Balance n 1 s) :
    Balance n 0 { s with pushback := 10 :: s.pushback } := by
  refine ⟨h.plain, ?_⟩
  have hsum := h.sum
  rw [ite_self]
  by_cases hnil : s.prev = []
  · rw [rootAhead_of_nil hnil, if_pos hnil] at hsum
    change s.root.lineno + (if s.prev = [] then 10 :: (s.pushback ++ s.file.rest) else _).count 10 + 0 = n
    rw [if_pos hnil, List.count_cons_self]
    omega
  · rw [rootAhead_of_ne hnil, if_neg hnil] at hsum
    change s.root.lineno + (if s.prev = [] then _ else s.root.rest).count 10 + 0 = n
    rw [if_neg hnil]
    exact hsum

/-- The newline just read can be pushed back. -/
theorem Balance.unget_newline {quotec : Int} (hbounded : s.Bounded) (h : Balance n 0 s)
    (hq : IsQuotec quotec) (hc : (Parse.lgetc quotec s).1 = ch '\n') :
    Balance n 0 (Parse.lungetc (Parse.lgetc quotec s).1 (Parse.lgetc quotec s).2) := by
  have hget := h.lgetc hq hbounded
  have hbuf := lgetc_newline hbounded h.plain quotec hc
  have hroom : (Parse.lgetc quotec s).2.pushback.length < maxPushback - 1 := by
    rcases hbounded.lgetc_cases quotec with ⟨text, i, b, -, -, -, hread⟩ | ⟨-, hpush⟩
    · rw [hread] at hbuf
      cases hbuf
    · have hlen := hbounded.pushback
      have hmax : maxPushback = 128 := rfl
      rw [hpush, List.length_tail]
      omega
  rw [hc] at hget ⊢
  rw [lungetc_of_none hbuf (by decide) hroom]
  exact hget.push_newline

theorem balance_lines (n : Nat) : LexLines LexOp.InBounds (Balance n) where
  lgetc hq hok h := h.lgetc hq (hok.states _ List.mem_cons_self)
  unget {quotec s} hq hok _ h := by
    have hbounded := hok.states s List.mem_cons_self
    by_cases hc : (Parse.lgetc quotec s).1 = ch '\n'
    · exact h.unget_newline hbounded hq hc
    · obtain ⟨hlo, hhi⟩ := lgetc_range hq s
      have hget := h.lgetc hq hbounded
      rw [newlines_of_ne hc] at hget
      exact hget.lungetc fun hbyte => hc (eq_newline_of_toByte hlo hhi hbyte)
  lungetc hc _ h := h.lungetc hc
  nextLine {s} h := by
    refine ⟨h.plain, ?_⟩
    have hsum := h.sum
    rw [ite_self]
    by_cases hnil : s.prev = []
    · have hnil' : (nextLine s).prev = [] := hnil
      rw [root_of_nil hnil, rootAhead_of_nil hnil, if_pos hnil] at hsum
      rw [root_of_nil hnil', rootAhead_of_nil hnil']
      change s.file.lineno + 1 + (s.pushback ++ s.file.rest).count 10 + 0 = n
      omega
    · have hne : (nextLine s).prev ≠ [] := hnil
      have hroot : (nextLine s).root = s.root := rootFile_of_ne hnil _ _
      rw [rootAhead_of_ne hnil, if_neg hnil] at hsum
      rw [rootAhead_of_ne hne, hroot]
      exact hsum
  yyerror h := h.same rfl rfl rfl rfl rfl
  endMacro h := ⟨nofun, h.sum⟩
  val h := h.same rfl rfl rfl rfl rfl

end Balance

/-! ## What is left of the last file -/

section Rest

theorem rootFile_suffix {f f' : File} (h : f'.rest <:+ f.rest) (prev : List File) :
    (rootFile f' prev).rest <:+ (rootFile f prev).rest := by
  cases prev with
  | nil => exact h
  | cons p ps =>
      rw [rootFile_of_ne (List.cons_ne_nil p ps) f' f]

theorem joinLines_suffix (rest : List Byte) (fl vl : Nat) : (joinLines rest fl vl).2.1 <:+ rest := by
  obtain ⟨w, hw, -⟩ := joinLines_takes rest fl vl
  exact ⟨w, hw.symm⟩

theorem popWhileEof_suffix (f : File) (prev : List File) :
    (rootFile (popWhileEof f prev).2.1 (popWhileEof f prev).2.2).rest <:+
      (rootFile f prev).rest := by
  by_cases hprev : prev = []
  · rw [hprev]
    exact List.suffix_rfl
  · obtain ⟨-, ⟨-, hsame⟩ | ⟨hnil, ⟨b, -, hrest⟩ | ⟨-, hrest⟩⟩⟩ := popWhileEof_takes f hprev
    · rw [hsame]
    · rw [hrest, hnil]
      exact List.suffix_cons b _
    · rw [hrest, hnil]
      exact List.suffix_rfl

theorem lgetcInput_suffix (quotec : Int) (s : Lex) :
    (lgetcInput quotec s).2.root.rest <:+ s.root.rest := by
  rw [root_eq, root_eq]
  simp only [lgetcInput]
  split
  · exact List.suffix_rfl
  split
  · rw [getcQuoted.eq_def]
    split
    · next b rest hrest => exact rootFile_suffix (by rw [hrest]; exact List.suffix_cons b rest) _
    · cases hprev : s.prev with
      | nil =>
          simp only [popfile, yyerror, hprev]
          exact List.suffix_rfl
      | cons p ps =>
          simp only [popfile, yyerror, hprev, rootFile_cons]
          exact @rootFile_suffix p { p with errors := p.errors + (s.file.errors + 1) }
            List.suffix_rfl ps
  · simp only [getcJoined]
    have hjoin := joinLines_suffix s.file.rest s.file.lineno s.lineno
    split
    · exact rootFile_suffix hjoin _
    · exact (popWhileEof_suffix _ _).trans (rootFile_suffix hjoin _)

theorem lexKeeps_rest (text : List Byte) : LexKeeps fun s => s.root.rest <:+ text where
  lgetc _ _ h := lgetc_holds (fun _ _ h => h) (fun s h => (lgetcInput_suffix _ s).trans h) h
  lungetc c s h := by
    obtain ⟨hfile, hprev⟩ := lungetc_file c s
    rwa [root_eq, hfile, hprev]
  yyerror m s h :=
    (rootFile_suffix (show (yyerror m s).file.rest <:+ s.file.rest from List.suffix_rfl) _).trans h
  endMacro _ h := h
  nextLine s h :=
    (rootFile_suffix (show (nextLine s).file.rest <:+ s.file.rest from List.suffix_rfl) _).trans h
  lineno _ _ h := h
  startMacro _ _ _ h _ := h
  val _ _ h := h

end Rest

end Ifconfigd.Parse
