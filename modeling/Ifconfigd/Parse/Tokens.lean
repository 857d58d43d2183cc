import Ifconfigd.Parse.Parser
import Mathlib.Data.Nat.Digits.Lemmas

/-!
# Lexing plain text

What `yylex` returns on a text made of keywords, quoted strings, numbers and braces, with
blanks between them and newlines at the ends of lines. The text is printed from lexemes,
and the lexer finds the same lexemes again.
-/

namespace Ifconfigd.Parse

open CLib

/-- The lexer reads the top-level file and has `text` before it. Between two tokens at
most one character is pushed back. -/
structure Reading (text : List Byte) (s : Lex) : Prop where
  parsebuf : s.parsebuf = none
  prev : s.prev = []
  errors : s.file.errors = 0
  input : s.pushback ++ s.file.rest = text
  back : s.pushback.length ≤ 1

/-- A 7-bit character that does not continue a line. -/
def Plain (b : Byte) : Prop := b < 128 ∧ b ≠ 92

instance (b : Byte) : Decidable (Plain b) := inferInstanceAs (Decidable (_ ∧ _))

/-! ## Characters -/

section Characters

variable {s : Lex} {b : Byte} {text : List Byte}

/-- Reading a character. A backslash stands for itself inside quotes only. -/
theorem Reading.lgetc (h : Reading (b :: text) s) (quotec : Int) (hb : b < 128)
    (hslash : b ≠ 92 ∨ quotec ≠ 0) :
    (lgetc quotec s).1 = schar b ∧ Reading text (lgetc quotec s).2 ∧
      (lgetc quotec s).2.pushback = [] := by
  obtain ⟨⟨name, rest, lineno, errors⟩, prev, parsebuf, pushback, symhead, vlineno, val, diags⟩ := s
  obtain ⟨rfl, rfl, rfl, hinput, hback⟩ := h
  cases pushback with
  | nil =>
      obtain rfl : rest = b :: text := hinput
      by_cases hq : quotec = 0
      · have hne := hslash.resolve_right (not_not.2 hq)
        rw [lgetc_of_file rfl rfl rfl hne, uchar_of_lt hb]
        exact ⟨rfl, ⟨rfl, rfl, rfl, rfl, Nat.zero_le _⟩, rfl⟩
      · simp only [Parse.lgetc, lgetcInput, if_pos hq, getcQuoted]
        exact ⟨uchar_of_lt hb, ⟨rfl, rfl, rfl, rfl, Nat.zero_le _⟩, trivial⟩
  | cons c pushback =>
      obtain rfl : pushback = [] := List.eq_nil_of_length_eq_zero (by simpa using hback)
      obtain ⟨rfl, rfl⟩ : c = b ∧ rest = text := by simpa using hinput
      exact ⟨rfl, ⟨rfl, rfl, rfl, rfl, Nat.zero_le _⟩, rfl⟩

theorem Reading.lgetc_eof (h : Reading [] s) :
    (Parse.lgetc 0 s).1 = eof ∧ Reading [] (Parse.lgetc 0 s).2 := by
  obtain ⟨⟨name, rest, lineno, errors⟩, prev, parsebuf, pushback, symhead, vlineno, val, diags⟩ := s
  obtain ⟨rfl, rfl, rfl, hinput, -⟩ := h
  obtain ⟨rfl, rfl⟩ := List.append_eq_nil_iff.1 hinput
  exact ⟨rfl, rfl, rfl, rfl, rfl, Nat.zero_le _⟩

/-- Pushing a character back. -/
theorem Reading.lungetc (h : Reading text s) (hpush : s.pushback = []) (hb : b < 128) :
    Reading (b :: text) (lungetc (schar b) s) := by
  have hs : Parse.lungetc (schar b) s = { s with pushback := [b] } := by
    simp only [Parse.lungetc, if_neg (schar_ne_eof hb), h.parsebuf, lungetc.push, toByte_schar, hpush]
    rfl
  rw [hs]
  refine ⟨h.parsebuf, h.prev, h.errors, ?_, Nat.le_refl 1⟩
  have hinput := h.input
  rw [hpush, List.nil_append] at hinput
  rw [hinput, List.singleton_append]

/-- Assignments that leave the input alone. -/
theorem Reading.congr {t : Lex} (h : Reading text s) (hparsebuf : t.parsebuf = s.parsebuf)
    (hprev : t.prev = s.prev) (herrors : t.file.errors = s.file.errors)
    (hpush : t.pushback = s.pushback) (hrest : t.file.rest = s.file.rest) : Reading text t :=
  ⟨hparsebuf.trans h.parsebuf, hprev.trans h.prev, herrors.trans h.errors,
    by rw [hpush, hrest, h.input], hpush ▸ h.back⟩

end Characters

/-! ## Loops -/

section Loops

variable {s : Lex} {b : Byte} {text : List Byte}

theorem Reading.skip {p : Int → Bool} {w : List Byte}
    (hw : ∀ x ∈ w, Plain x ∧ p (schar x) = true) (hb : Plain b) (hp : p (schar b) = false)
    (h : Reading (w ++ b :: text) s) :
    (skip p s).1 = schar b ∧ Reading text (skip p s).2 ∧ (skip p s).2.pushback = [] := by
  induction w generalizing s with
  | nil =>
      obtain ⟨hc, hs⟩ := h.lgetc 0 hb.1 (.inl hb.2)
      rw [skip.eq_def, dif_neg (by simp [hc, hp])]
      exact ⟨hc, hs⟩
  | cons x w ih =>
      have hx := hw x List.mem_cons_self
      obtain ⟨hc, hs, -⟩ := h.lgetc 0 hx.1.1 (.inl hx.1.2)
      rw [skip.eq_def, dif_pos (by rw [hc]; exact ⟨schar_ne_eof hx.1.1, hx.2⟩)]
      exact ih (fun y hy => hw y (List.mem_cons_of_mem _ hy)) hs

/-- A word whose first character was read already. -/
theorem Reading.scan {p : Int → Bool} {w : List Byte} (acc : List Byte) {c : Byte}
    (hw : ∀ x ∈ w, Plain x ∧ p (schar x) = true) (hb : Plain b) (hp : p (schar b) = false)
    (hlen : acc.length + w.length + 1 < bufSize) (h : Reading (w ++ b :: text) s) :
    ∃ s', scan p acc (schar c) s = (.done (acc ++ c :: w) s', schar b) ∧
      Reading (b :: text) s' := by
  induction w generalizing s acc c with
  | nil =>
      obtain ⟨hc, hs, hpush⟩ := h.lgetc 0 hb.1 (.inl hb.2)
      rw [scan.eq_def, if_neg (by simpa using hlen), dif_neg (by simp [hc, hp]), hc, toByte_schar]
      exact ⟨_, rfl, hs.lungetc hpush hb.1⟩
  | cons x w ih =>
      have hx := hw x List.mem_cons_self
      obtain ⟨hc, hs, -⟩ := h.lgetc 0 hx.1.1 (.inl hx.1.2)
      rw [List.length_cons] at hlen
      rw [scan.eq_def, if_neg (by omega),
        dif_pos (by rw [hc]; exact ⟨schar_ne_eof hx.1.1, hx.2⟩), hc, toByte_schar]
      have hlen' : (acc ++ [c]).length + w.length + 1 < bufSize := by
        rw [List.length_append, List.length_singleton]
        omega
      obtain ⟨s', hscan, hs'⟩ := ih (acc ++ [c]) (c := x) (fun y hy => hw y (List.mem_cons_of_mem _ hy))
        hlen' hs
      refine ⟨s', ?_, hs'⟩
      rw [hscan, List.append_assoc, List.singleton_append]

/-- A string with a backslash before each double quote. -/
def escape (w : List Byte) : List Byte := w.flatMap fun b => if b = 34 then [92, 34] else [b]

/-- The characters a quoted string of the printed text is made of. -/
def Quotable (b : Byte) : Prop := Plain b ∧ b ≠ 10

instance (b : Byte) : Decidable (Quotable b) := inferInstanceAs (Decidable (_ ∧ _))

theorem schar_inj {a b : Byte} : schar a = schar b ↔ a = b :=
  ⟨fun h => by rw [← toByte_schar a, h, toByte_schar], fun h => by rw [h]⟩

theorem Reading.quoteStep_char (hb : Quotable b)
    (h : Reading ((if b = 34 then [92, 34] else [b]) ++ text) s) :
    ∃ s', quoteStep (ch '"') s = .char (schar b) s' ∧ Reading text s' := by
  split at h
  · next hquote =>
      subst hquote
      obtain ⟨hc, hs, -⟩ := h.lgetc (ch '"') (by decide) (.inr (by decide))
      obtain ⟨hn, hs', -⟩ := hs.lgetc (ch '"') (by decide) (.inr (by decide))
      refine ⟨_, ?_, hs'⟩
      simp only [quoteStep, hc, hn]
      rfl
  · next hquote =>
      obtain ⟨hc, hs, -⟩ := h.lgetc (ch '"') hb.1.1 (.inl hb.1.2)
      refine ⟨_, ?_, hs⟩
      have h10 : schar b ≠ ch '\n' := fun heq => hb.2 (schar_inj.1 heq)
      have h92 : schar b ≠ ch '\\' := fun heq => hb.1.2 (schar_inj.1 heq)
      have h34 : schar b ≠ ch '"' := fun heq => hquote (schar_inj.1 heq)
      simp only [quoteStep, hc, if_neg (schar_ne_eof hb.1.1), if_neg h10, if_neg h92, if_neg h34]

/-- A quoted string, from its first character to the closing quote. -/
theorem Reading.quoted {w : List Byte} (acc : List Byte) (hw : ∀ x ∈ w, Quotable x)
    (hlen : acc.length + w.length + 1 < bufSize) (h : Reading (escape w ++ 34 :: text) s) :
    ∃ s', quoted (ch '"') acc s = .done (acc ++ w) s' ∧ Reading text s' := by
  induction w generalizing s acc with
  | nil =>
      obtain ⟨hc, hs, -⟩ := h.lgetc (ch '"') (by decide) (.inl (by decide))
      have hstep : quoteStep (ch '"') s = .close (Parse.lgetc (ch '"') s).2 := by
        simp only [quoteStep, hc]
        rfl
      refine ⟨_, ?_, hs⟩
      rw [quoted.eq_def]
      split <;> simp_all
  | cons x w ih =>
      rw [escape, List.flatMap_cons, List.append_assoc] at h
      obtain ⟨s₁, hstep, hs₁⟩ := h.quoteStep_char (hw x List.mem_cons_self)
      rw [List.length_cons] at hlen
      have hlen' : (acc ++ [x]).length + w.length + 1 < bufSize := by
        rw [List.length_append, List.length_singleton]
        omega
      obtain ⟨s', hquoted, hs'⟩ := ih (acc ++ [x])
        (fun y hy => hw y (List.mem_cons_of_mem _ hy)) hlen' hs₁
      refine ⟨s', ?_, hs'⟩
      rw [quoted.eq_def]
      split <;> rename_i heq <;> rw [hstep] at heq <;> cases heq
      rw [if_neg (by simp only [bufSize] at hlen ⊢; omega), toByte_schar, hquoted, List.append_assoc,
        List.singleton_append]

end Loops

/-! ## The beginning of a token -/

section Start

variable {s : Lex} {b : Byte} {text w : List Byte}

/-- Spaces and tabs. -/
def Blank (b : Byte) : Prop := b = 32 ∨ b = 9

instance (b : Byte) : Decidable (Blank b) := inferInstanceAs (Decidable (_ ∨ _))

/-- A character that begins a token: no blank, comment or macro. -/
def Begins (b : Byte) : Prop := Plain b ∧ ¬Blank b ∧ b ≠ 35 ∧ b ≠ 36

instance (b : Byte) : Decidable (Begins b) := inferInstanceAs (Decidable (_ ∧ _))

/-- `yylex` skips blanks and goes on with the character behind them. -/
theorem Reading.yylex_of_begins (hw : ∀ x ∈ w, Blank x) (hb : Begins b)
    (h : Reading (w ++ b :: text) s) :
    ∃ s', yylex s = lexToken (schar b) s' ∧ Reading text s' := by
  obtain ⟨hb, hblank, hhash, hdollar⟩ := hb
  have hw' : ∀ x ∈ w, Plain x ∧ isBlank (schar x) = true := by
    intro x hx
    rcases hw x hx with rfl | rfl <;> decide
  have hb' : isBlank (schar b) = false := by
    rw [Bool.eq_false_iff]
    intro heq
    rw [isBlank, Bool.or_eq_true, decide_eq_true_eq, decide_eq_true_eq] at heq
    exact hblank (heq.imp (schar_inj (b := 32)).1 (schar_inj (b := 9)).1)
  obtain ⟨hc, hs, -⟩ := h.skip hw' hb hb'
  have hne : schar b ≠ ch '#' := fun heq => hhash (schar_inj.1 heq)
  have hstart : lexStart s =
      (schar b, { (Parse.skip isBlank s).2 with
        lineno := (Parse.skip isBlank s).2.file.lineno }) := by
    simp only [lexStart, hc, if_neg hne]
  have hstarts : ¬StartsMacro s := by
    rw [StartsMacro, hstart]
    exact fun heq => hdollar (schar_inj.1 heq.1)
  rw [yylex_of_token hstarts, hstart]
  exact ⟨_, rfl, hs.congr rfl rfl rfl rfl rfl⟩

theorem Reading.yylex_eof (h : Reading [] s) : (yylex s).1 = .char 0 ∧ Reading [] (yylex s).2 := by
  obtain ⟨hc, hs⟩ := h.lgetc_eof
  have hskip : Parse.skip isBlank s = Parse.lgetc 0 s := by
    rw [skip.eq_def, dif_neg (by simp [hc])]
  have hstart : lexStart s =
      (eof, { (Parse.lgetc 0 s).2 with lineno := (Parse.lgetc 0 s).2.file.lineno }) := by
    simp only [lexStart, hskip, hc]
    rfl
  have hstarts : ¬StartsMacro s := by
    rw [StartsMacro, hstart]
    exact fun heq => absurd (show eof = ch '$' from heq.1) (by decide)
  rw [yylex_of_token hstarts, hstart]
  exact ⟨rfl, hs.congr rfl rfl rfl rfl rfl⟩

end Start

/-! ## Lexemes -/

/-- The word of a keyword. -/
def spelling (a : Token) : CStr := ((keywords.find? fun k => k.2 = a).map Prod.fst).getD (CStr.lit "")

/-- A number in decimal notation. -/
def decimal (n : Nat) : List Byte :=
  if n = 0 then [48] else (Nat.digits 10 n).reverse.map fun d => UInt8.ofNat (48 + d)

def decimalInt (n : Int) : List Byte :=
  if n < 0 then 45 :: decimal n.natAbs else decimal n.natAbs

/-- A piece of text that is one token. -/
inductive Lexeme
  | keyword (a : Token)
  | quoted (w : CStr)
  | number (n : Int)
  | lbrace
  | rbrace

namespace Lexeme

def text : Lexeme → List Byte
  | keyword a => (spelling a).bytes
  | quoted w => 34 :: escape w.bytes ++ [34]
  | number n => decimalInt n
  | lbrace => [123]
  | rbrace => [125]

def token : Lexeme → Token
  | keyword a => a
  | quoted _ => .string
  | number _ => .number
  | lbrace => .char 123
  | rbrace => .char 125

/-- The value of the token, where it has one. -/
def val : Lexeme → Option Val
  | quoted w => some (.string w)
  | number n => some (.number n)
  | _ => none

/-- What can be printed: the keywords of the table, strings that fit the buffer of the
lexer and hold characters that can be quoted, and the values of an `int`. -/
def Printable : Lexeme → Prop
  | keyword a => a ∈ keywords.map Prod.snd
  | quoted w => (∀ b ∈ w.bytes, Quotable b) ∧ w.length ≤ 8000
  | number n => -2 ^ 31 ≤ n ∧ n < 2 ^ 31
  | lbrace => True
  | rbrace => True

instance (a : Token) : Decidable (keyword a).Printable :=
  inferInstanceAs (Decidable (a ∈ keywords.map Prod.snd))

/-! The tokens found in the printed text; each stands before a space or the end of its
line. -/

variable {s : Lex} {b : Byte} {rest w : List Byte}

/-- A text that is read as one word. -/
def IsWord : List Byte → Prop
  | [] => False
  | c :: cs =>
      (Begins c ∧ c ∉ [34, 39, 45]) ∧ isalnum (schar c) = true ∧ isdigit (schar c) = false ∧
        cs.length < 100 ∧ ∀ x ∈ cs, Plain x ∧ allowedInString (schar x) = true

instance : DecidablePred IsWord
  | [] => inferInstanceAs (Decidable False)
  | _ :: _ => inferInstanceAs (Decidable (_ ∧ _))

theorem spelling_keyword {a : Token} (h : (keyword a).Printable) :
    IsWord (spelling a).bytes ∧ lookup (spelling a) = a ∧ a ≠ .string := by
  have hall : ∀ a ∈ keywords.map Prod.snd,
      IsWord (spelling a).bytes ∧ lookup (spelling a) = a ∧ a ≠ .string := by
    decide +kernel
  exact hall a h

/-- The characters after a lexeme. -/
def Ends (b : Byte) : Prop := b = 32 ∨ b = 10

theorem Ends.plain (hb : Ends b) : Plain b := by
  rcases hb with rfl | rfl <;> decide

theorem yylex_keyword {a : Token} (ha : (keyword a).Printable) (hw : ∀ x ∈ w, Blank x)
    (hb : Ends b) (h : Reading (w ++ ((keyword a).text ++ b :: rest)) s) :
    (yylex s).1 = a ∧ Reading (b :: rest) (yylex s).2 := by
  obtain ⟨hword, hlookup, hstring⟩ := spelling_keyword ha
  rw [text] at h
  have hread := CStr.read_bytes (spelling a)
  cases hbytes : (spelling a).bytes with
  | nil => simp [hbytes, IsWord] at hword
  | cons c cs =>
      rw [hbytes] at h hword hread
      obtain ⟨⟨hc, hother⟩, halnum, hdigit, hlen, hcs⟩ := hword
      obtain ⟨s₁, hs₁, hread₁⟩ := h.yylex_of_begins hw hc
      have hp : allowedInString (schar b) = false := by
        rcases hb with rfl | rfl <;> decide
      obtain ⟨s₂, hscan, hread₂⟩ := hread₁.scan [] (c := c) hcs hb.plain hp
        (by simp only [List.length_nil, bufSize]; omega)
      have h34 : schar c ≠ ch '"' := fun heq => hother (by simp [schar_inj (b := 34).1 heq])
      have h39 : schar c ≠ ch '\'' := fun heq => hother (by simp [schar_inj (b := 39).1 heq])
      have h45 : schar c ≠ ch '-' := fun heq => hother (by simp [schar_inj (b := 45).1 heq])
      have htoken : lexToken (schar c) s₁ = wordToken (c :: cs) s₂ := by
        simp [lexToken, h34, h39, h45, hdigit, lexWord, halnum, hscan]
      rw [hs₁, htoken, wordToken, hread, hlookup]
      split
      · exact absurd rfl hstring
      · exact ⟨rfl, hread₂⟩

theorem yylex_quoted {v : CStr} (hv : (quoted v).Printable) (hw : ∀ x ∈ w, Blank x)
    (h : Reading (w ++ ((quoted v).text ++ rest)) s) :
    (yylex s).1 = .string ∧ (yylex s).2.val = .string v ∧ Reading rest (yylex s).2 := by
  rw [text, List.append_assoc, List.cons_append] at h
  obtain ⟨s₁, hs₁, hread₁⟩ := h.yylex_of_begins hw (by decide)
  obtain ⟨s₂, hquoted, hread₂⟩ := hread₁.quoted [] hv.1
    (by simp only [List.length_nil, bufSize]; have := hv.2; simp only [CStr.length] at this; omega)
  have htoken : lexToken (schar 34) s₁ = (.string, { s₂ with val := .string v }) := by
    have : lexToken (schar 34) s₁ = lexQuoted (ch '"') s₁ := rfl
    rw [this, lexQuoted, hquoted]
    simp only [List.nil_append, CStr.read_bytes]
  rw [hs₁, htoken]
  exact ⟨rfl, rfl, hread₂.congr rfl rfl rfl rfl rfl⟩

theorem yylex_brace {c : Byte} (hc : c = 123 ∨ c = 125) (hw : ∀ x ∈ w, Blank x)
    (h : Reading (w ++ c :: rest) s) :
    (yylex s).1 = .char (schar c) ∧ Reading rest (yylex s).2 := by
  obtain ⟨s₁, hs₁, hread₁⟩ := h.yylex_of_begins hw (by rcases hc with rfl | rfl <;> decide)
  rw [hs₁]
  rcases hc with rfl | rfl <;> exact ⟨rfl, hread₁⟩

theorem yylex_newline (h : Reading (10 :: rest) s) :
    (yylex s).1 = .char 10 ∧ Reading rest (yylex s).2 := by
  obtain ⟨s₁, hs₁, hread₁⟩ := Reading.yylex_of_begins (w := []) (by simp) (by decide) h
  rw [hs₁]
  exact ⟨rfl, hread₁.congr rfl rfl rfl rfl rfl⟩

/-! Numbers. -/

theorem foldl_digits {ds : List Nat} (hds : ∀ d ∈ ds, d < 10) :
    (ds.reverse.map fun d => UInt8.ofNat (48 + d)).foldl
      (fun (n : Int) d => 10 * n + (d.toNat - 48)) 0 = (Nat.ofDigits 10 ds : Nat) := by
  rw [List.foldl_map, List.foldl_reverse]
  induction ds with
  | nil => rfl
  | cons d ds ih =>
      have hd := hds d List.mem_cons_self
      rw [List.foldr_cons, ih fun x hx => hds x (List.mem_cons_of_mem _ hx), Nat.ofDigits_cons]
      have : (UInt8.ofNat (48 + d)).toNat = 48 + d := by
        rw [UInt8.toNat_ofNat']
        omega
      rw [this]
      push_cast
      ring

theorem foldl_decimal (n : Nat) :
    (decimal n).foldl (fun (n : Int) d => 10 * n + (d.toNat - 48)) 0 = n := by
  rw [decimal]
  split
  · next h => rw [h]; rfl
  · rw [foldl_digits fun d hd => Nat.digits_lt_base (by decide) hd, Nat.ofDigits_digits]

theorem isDigit_decimal {n : Nat} {x : Byte} (hx : x ∈ decimal n) : 48 ≤ x ∧ x ≤ 57 := by
  rw [decimal] at hx
  split at hx
  · rw [List.mem_singleton] at hx
    rw [hx]
    decide
  · obtain ⟨d, hd, rfl⟩ := List.mem_map.1 hx
    have := Nat.digits_lt_base (by decide) (List.mem_reverse.1 hd)
    rw [UInt8.le_iff_toNat_le, UInt8.le_iff_toNat_le, UInt8.toNat_ofNat']
    simp only [UInt8.reduceToNat]
    omega

theorem decimal_ne_nil (n : Nat) : decimal n ≠ [] := by
  rw [decimal]
  split
  · simp
  · next h => simpa using Nat.digits_ne_nil_iff_ne_zero.2 h

theorem decimal_length {n : Nat} (hn : n ≤ 2 ^ 31) : (decimal n).length ≤ 10 := by
  rw [decimal]
  split
  · simp
  · rw [List.length_map, List.length_reverse]
    exact (Nat.digits_length_le_iff (by decide) n).2 (Nat.lt_of_le_of_lt hn (by norm_num))

theorem strtonum_decimalInt {n : Int} (hn : (number n).Printable) :
    strtonum (decimalInt n) = .ok n := by
  obtain ⟨hlow, hhigh⟩ := hn
  have hvalue : (if (decimalInt n).head? = some 45 then
      -(decimalInt n).tail.foldl (fun (n : Int) d => 10 * n + (d.toNat - 48)) 0
      else (decimalInt n).foldl (fun (n : Int) d => 10 * n + (d.toNat - 48)) 0) = n := by
    rw [decimalInt]
    split
    · rw [if_pos List.head?_cons, List.tail_cons, foldl_decimal]
      omega
    · rw [if_neg, foldl_decimal]
      · omega
      · intro hhead
        exact absurd (isDigit_decimal (List.mem_of_mem_head? hhead)).1 (by decide)
  rw [strtonum, hvalue, if_neg (by omega), if_neg (by omega)]

/-- The first character of a number and the digits that follow it. -/
theorem exists_decimalInt (n : Int) : ∃ c cs, decimalInt n = c :: cs ∧
    (c = 45 ∨ (48 ≤ c ∧ c ≤ 57)) ∧ (∀ x ∈ cs, 48 ≤ x ∧ x ≤ 57) ∧ decimalInt n ≠ [45] := by
  cases hdec : decimal n.natAbs with
  | nil => exact absurd hdec (decimal_ne_nil _)
  | cons c cs =>
      have hdigits (x : Byte) (hx : x ∈ c :: cs) : 48 ≤ x ∧ x ≤ 57 := isDigit_decimal (hdec ▸ hx)
      rw [decimalInt, hdec]
      split
      · exact ⟨45, c :: cs, rfl, .inl rfl, hdigits, by simp⟩
      · refine ⟨c, cs, rfl, .inr (hdigits c List.mem_cons_self),
          fun x hx => hdigits x (List.mem_cons_of_mem _ hx), ?_⟩
        intro heq
        injection heq with heq
        exact absurd (heq ▸ (hdigits c List.mem_cons_self).1) (by decide)

theorem digit_facts {x : Byte} (h : 48 ≤ x ∧ x ≤ 57) : Begins x ∧ isdigit (schar x) = true ∧
    schar x ≠ ch '\'' ∧ schar x ≠ ch '"' := by
  have hall : ∀ n : Fin 10, ∀ x : Byte, x = UInt8.ofNat (48 + n) → Begins x ∧
      isdigit (schar x) = true ∧ schar x ≠ ch '\'' ∧ schar x ≠ ch '"' := by
    rintro n x rfl
    revert n
    decide
  rw [UInt8.le_iff_toNat_le, UInt8.le_iff_toNat_le] at h
  simp only [UInt8.reduceToNat] at h
  refine hall ⟨x.toNat - 48, by omega⟩ x ?_
  apply UInt8.toNat_inj.1
  simp only [UInt8.toNat_ofNat']
  omega

theorem yylex_number {n : Int} (hn : (number n).Printable) (hw : ∀ x ∈ w, Blank x) (hb : Ends b)
    (h : Reading (w ++ ((number n).text ++ b :: rest)) s) :
    (yylex s).1 = .number ∧ (yylex s).2.val = .number n ∧ Reading (b :: rest) (yylex s).2 := by
  obtain ⟨c, cs, hdec, hc, hcs, hne⟩ := exists_decimalInt n
  have hvalue := strtonum_decimalInt hn
  have hlen : (decimalInt n).length ≤ 11 := by
    have := decimal_length (n := n.natAbs) (by have := hn.1; have := hn.2; omega)
    rw [decimalInt]
    split
    · rw [List.length_cons]; omega
    · omega
  rw [text] at h
  rw [hdec] at h hne hvalue hlen
  have hcs' : ∀ x ∈ cs, Plain x ∧ isdigit (schar x) = true := fun x hx =>
    ⟨(digit_facts (hcs x hx)).1.1, (digit_facts (hcs x hx)).2.1⟩
  have hfirst : Begins c ∧ (c = 45 ∨ isdigit (schar c) = true) ∧
      schar c ≠ ch '\'' ∧ schar c ≠ ch '"' := by
    rcases hc with rfl | hc
    · decide
    · obtain ⟨hbegins, hdigit, hquotes⟩ := digit_facts hc
      exact ⟨hbegins, .inr hdigit, hquotes⟩
  have hend : isdigit (schar b) = false ∧ allowedToEndNumber (schar b) = true := by
    rcases hb with rfl | rfl <;> decide
  obtain ⟨s₁, hs₁, hread₁⟩ := h.yylex_of_begins hw hfirst.1
  obtain ⟨s₂, hscan, hread₂⟩ := hread₁.scan [] (c := c) hcs' hb.plain hend.1
    (by simp only [List.length_nil, List.length_cons, bufSize] at hlen ⊢; omega)
  have hnumber : lexToken (schar c) s₁ = lexNumber (schar c) s₁ := by
    rcases hfirst.2.1 with rfl | hdigit
    · rfl
    · simp [lexToken, hfirst.2.2, hdigit]
  have htoken : lexNumber (schar c) s₁ = (.number, { s₂ with val := .number n }) := by
    simp [lexNumber, hscan, hne, hend.2, hvalue]
  rw [hs₁, hnumber, htoken]
  exact ⟨rfl, rfl, hread₂.congr rfl rfl rfl rfl rfl⟩

/-- A printed lexeme is found again. -/
theorem yylex_text {l : Lexeme} (hl : l.Printable) (hw : ∀ x ∈ w, Blank x) (hb : Ends b)
    (h : Reading (w ++ (l.text ++ b :: rest)) s) :
    (yylex s).1.clamp = l.token ∧ (∀ v ∈ l.val, (yylex s).2.val = v) ∧
      Reading (b :: rest) (yylex s).2 := by
  cases l with
  | keyword a =>
      obtain ⟨htoken, hread⟩ := yylex_keyword hl hw hb h
      refine ⟨?_, by simp [val], hread⟩
      have hall : ∀ a ∈ keywords.map Prod.snd, a.clamp = a := by decide
      rw [htoken, hall a hl, token]
  | quoted v =>
      obtain ⟨htoken, hval, hread⟩ := yylex_quoted hl hw h
      exact ⟨by rw [htoken]; rfl, by simpa [val] using hval, hread⟩
  | number n =>
      obtain ⟨htoken, hval, hread⟩ := yylex_number hl hw hb h
      exact ⟨by rw [htoken]; rfl, by simpa [val] using hval, hread⟩
  | lbrace =>
      obtain ⟨htoken, hread⟩ := yylex_brace (.inl rfl) hw h
      exact ⟨by rw [htoken]; rfl, by simp [val], hread⟩
  | rbrace =>
      obtain ⟨htoken, hread⟩ := yylex_brace (.inr rfl) hw h
      exact ⟨by rw [htoken]; rfl, by simp [val], hread⟩

end Lexeme

/-! ## Lines -/

/-- The tokens to come are `as`, with the values that are given; there are no errors. -/
def Lexes : Lex → List (Token × Option Val) → Prop
  | s, [] => s.file.errors = 0
  | s, (a, o) :: as =>
      (yylex s).1.clamp = a ∧ (∀ v ∈ o, (yylex s).2.val = v) ∧ Lexes (yylex s).2 as

/-- A line of text: a number of tabs and some lexemes with spaces between them. -/
structure Line where
  depth : Nat
  first : Lexeme
  others : List Lexeme

namespace Line

def text (l : Line) : List Byte :=
  List.replicate l.depth 9 ++ (l.first.text ++ (l.others.flatMap fun x => 32 :: x.text) ++ [10])

def tokens (l : Line) : List (Token × Option Val) :=
  (l.first :: l.others).map (fun x => (x.token, x.val)) ++ [(newline, none)]

def Printable (l : Line) : Prop := ∀ x ∈ l.first :: l.others, x.Printable

end Line

/-- The rest of a line after some blanks: one lexeme and others with spaces before them. -/
theorem lexes_lexemes {first : Lexeme} {others : List Lexeme}
    (hl : ∀ x ∈ first :: others, x.Printable) {rest : List Byte} {as : List (Token × Option Val)}
    (hrest : ∀ s, Reading rest s → Lexes s as) {w : List Byte} (hw : ∀ x ∈ w, Blank x) {s : Lex}
    (h : Reading (w ++ (first.text ++ ((others.flatMap fun x => 32 :: x.text) ++ 10 :: rest))) s) :
    Lexes s ((first :: others).map (fun x => (x.token, x.val)) ++ (newline, none) :: as) := by
  induction others generalizing s first w with
  | nil =>
      obtain ⟨htoken, hval, hread⟩ := Lexeme.yylex_text (hl first List.mem_cons_self) hw (.inr rfl) h
      obtain ⟨hnewline, hread'⟩ := Lexeme.yylex_newline hread
      exact ⟨htoken, hval, by rw [hnewline]; rfl, by simp, hrest _ hread'⟩
  | cons x others ih =>
      rw [List.flatMap_cons, List.append_assoc, List.cons_append] at h
      obtain ⟨htoken, hval, hread⟩ := Lexeme.yylex_text (hl first List.mem_cons_self) hw (.inl rfl) h
      exact ⟨htoken, hval, ih (w := [32]) (fun y hy => hl y (List.mem_cons_of_mem _ hy))
        (by simp [Blank]) hread⟩

/-- The lexer finds the lexemes of printed lines. -/
theorem lexes_lines {ls : List Line} (hls : ∀ l ∈ ls, l.Printable) {s : Lex}
    (h : Reading (ls.flatMap Line.text) s) :
    Lexes s (ls.flatMap Line.tokens ++ [(.char 0, none)]) := by
  induction ls generalizing s with
  | nil =>
      obtain ⟨htoken, hread⟩ := h.yylex_eof
      exact ⟨by rw [htoken]; rfl, by simp, hread.errors⟩
  | cons l ls ih =>
      have htext : (l :: ls).flatMap Line.text = List.replicate l.depth 9 ++ (l.first.text ++
          ((l.others.flatMap fun x => 32 :: x.text) ++ 10 :: ls.flatMap Line.text)) := by
        simp only [List.flatMap_cons, Line.text, List.append_assoc, List.singleton_append]
      have htokens : (l :: ls).flatMap Line.tokens ++ [(.char 0, none)] =
          (l.first :: l.others).map (fun x => (x.token, x.val)) ++
            (newline, none) :: (ls.flatMap Line.tokens ++ [(.char 0, none)]) := by
        simp only [List.flatMap_cons, Line.tokens, List.append_assoc, List.cons_append,
          List.nil_append]
      rw [htext] at h
      rw [htokens]
      refine lexes_lexemes (hls l List.mem_cons_self) ?_ ?_ h
      · exact fun s hs => ih (fun m hm => hls m (List.mem_cons_of_mem _ hm)) hs
      · intro x hx
        exact .inr (List.eq_of_mem_replicate hx)

end Ifconfigd.Parse
