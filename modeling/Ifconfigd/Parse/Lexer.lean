import Ifconfigd.Parse.Input
import Mathlib.Tactic.SplitIfs

/-!
# The lexer

`yylex` of `parse.y` with its loops. Every loop ends because a character that is not
`EOF` was taken from somewhere: the size of the input that is left, macro text
included, goes down with every such call of `lgetc`, and stepping back one character
never adds more than was taken.

A macro whose text holds only blanks sends `yylex` back to its beginning. Macros are
not expanded inside a macro, so there the input without the macro text is smaller.
-/

namespace Ifconfigd.Parse

open CLib

/-! ## How much input is left -/

/-- What is left of the files and the pushback buffer; each file behind the current
one counts one more, for leaving it. -/
def Lex.inputSize (s : Lex) : Nat :=
  s.file.rest.length + (s.prev.map fun f => f.rest.length + 1).sum + s.pushback.length

/-- What is left of the macro text. -/
def Lex.macroSize (s : Lex) : Nat :=
  match s.parsebuf with
  | none => 0
  | some ⟨text, index⟩ => text.length - index.toNat

def Lex.size (s : Lex) : Nat := s.inputSize + s.macroSize

/-- What a call of `lgetc` that returned `c` took from the input, at least. -/
def taken (c : Int) : Nat := if c = eof then 0 else 1

theorem taken_le_one (c : Int) : taken c ≤ 1 := by
  simp only [taken]
  split <;> decide

theorem taken_of_ne {c : Int} (h : c ≠ eof) : taken c = 1 := if_neg h

theorem joinLines_length (rest : List Byte) (fl vl : Nat) :
    (joinLines rest fl vl).2.1.length + (joinLines rest fl vl).1.toList.length ≤ rest.length := by
  fun_induction joinLines rest fl vl with
  | case1 | case2 | case3 | case4 => simp
  | case5 => simp_all; omega

theorem joinLines_none {rest : List Byte} {fl vl : Nat} (h : (joinLines rest fl vl).1 = none) :
    (joinLines rest fl vl).2.1 = [] := by
  fun_induction joinLines rest fl vl with
  | case1 => rfl
  | case2 => cases h
  | case3 => rfl
  | case4 => cases h
  | case5 _ _ _ _ _ _ _ ih => exact ih h

theorem popWhileEof_size (f : File) (prev : List File) :
    let r := popWhileEof f prev
    r.2.1.rest.length + (r.2.2.map fun f => f.rest.length + 1).sum + taken r.1
      ≤ f.rest.length + (prev.map fun f => f.rest.length + 1).sum := by
  fun_induction popWhileEof f prev with
  | case1 f => simp [taken]
  | case2 f p ps hrest ih =>
      simp only [List.map_cons, List.sum_cons, hrest, List.length_nil] at *
      omega
  | case3 f p ps b rest hrest =>
      have := taken_le_one (uchar b)
      simp only [List.map_cons, List.sum_cons, hrest, List.length_cons]
      omega

theorem getcQuoted_inputSize {s : Lex} (hpush : s.pushback = []) (quotec : Int) :
    (getcQuoted quotec s).2.inputSize + taken (getcQuoted quotec s).1 ≤ s.inputSize := by
  have hle := taken_le_one
  cases hrest : s.file.rest with
  | cons b rest => simp [getcQuoted, Lex.inputSize, hrest, hpush]; grind
  | nil =>
      cases hprev : s.prev with
      | nil => simp [getcQuoted, popfile, yyerror, Lex.inputSize, hrest, hpush, hprev, taken]
      | cons p ps =>
          have := hle quotec
          simp only [getcQuoted, popfile, yyerror, Lex.inputSize, hrest, hpush, hprev,
            List.map_cons, List.sum_cons, List.length_nil]
          omega

theorem getcJoined_inputSize {s : Lex} (hpush : s.pushback = []) :
    (getcJoined s).2.inputSize + taken (getcJoined s).1 ≤ s.inputSize := by
  have hjoin := joinLines_length s.file.rest s.file.lineno s.lineno
  simp only [getcJoined]
  split
  · next b hb =>
      have := taken_le_one (uchar b)
      simp only [hb, Option.toList_some, List.length_singleton] at hjoin
      simp only [Lex.inputSize, hpush, List.length_nil]
      omega
  · next hb =>
      have hpop := popWhileEof_size
        { s.file with
          rest := (joinLines s.file.rest s.file.lineno s.lineno).2.1
          lineno := (joinLines s.file.rest s.file.lineno s.lineno).2.2.1 } s.prev
      simp only [Lex.inputSize, hpush, List.length_nil] at hpop ⊢
      omega

theorem lgetcInput_inputSize (quotec : Int) (s : Lex) :
    (lgetcInput quotec s).2.inputSize + taken (lgetcInput quotec s).1 ≤ s.inputSize := by
  cases hpush : s.pushback with
  | cons b rest =>
      have := taken_le_one (schar b)
      simp only [lgetcInput, Lex.inputSize, hpush, List.length_cons]
      omega
  | nil =>
      simp only [lgetcInput, hpush]
      split_ifs
      · exact getcQuoted_inputSize hpush quotec
      · exact getcJoined_inputSize hpush

@[simp] theorem lgetcInput_parsebuf (quotec : Int) (s : Lex) :
    (lgetcInput quotec s).2.parsebuf = s.parsebuf := by
  simp only [lgetcInput, getcQuoted, getcJoined, popfile, yyerror]
  grind

theorem lgetcInput_macroSize (quotec : Int) (s : Lex) :
    (lgetcInput quotec s).2.macroSize = s.macroSize := by
  simp only [Lex.macroSize, lgetcInput_parsebuf]

/-- Where a character of `lgetc` comes from: the macro text, or the rest of the input
with the macro text given up or not begun yet. -/
theorem lgetc_cases (quotec : Int) (s : Lex) :
    (∃ text index b, s.parsebuf = some ⟨text, index⟩ ∧ 0 ≤ index ∧
        text.bytes[index.toNat]? = some b ∧
        lgetc quotec s = (schar b, { s with parsebuf := some ⟨text, index + 1⟩ })) ∨
      ∃ s₀ : Lex, lgetc quotec s = lgetcInput quotec s₀ ∧ s₀.inputSize = s.inputSize ∧
        s₀.macroSize ≤ s.macroSize := by
  cases hbuf : s.parsebuf with
  | none => exact Or.inr ⟨s, by simp [lgetc, hbuf], rfl, Nat.le_refl _⟩
  | some buf =>
      obtain ⟨text, index⟩ := buf
      by_cases hidx : 0 ≤ index
      · cases hb : text.bytes[index.toNat]? with
        | some b => exact Or.inl ⟨text, index, b, rfl, hidx, hb, by simp [lgetc, hbuf, hidx, hb]⟩
        | none =>
            refine Or.inr ⟨{ s with parsebuf := none }, by simp [lgetc, hbuf, hidx, hb], rfl, ?_⟩
            simp [Lex.macroSize]
      · refine Or.inr ⟨{ s with parsebuf := some ⟨text, index + 1⟩ },
          by simp [lgetc, hbuf, hidx], rfl, ?_⟩
        simp only [Lex.macroSize, hbuf]
        omega

theorem lgetc_inputSize_le (quotec : Int) (s : Lex) :
    (lgetc quotec s).2.inputSize ≤ s.inputSize := by
  rcases lgetc_cases quotec s with ⟨text, index, b, -, -, -, hget⟩ | ⟨s₀, hget, hin, -⟩
  · simp [hget, Lex.inputSize]
  · have := lgetcInput_inputSize quotec s₀
    rw [hget]
    omega

theorem lgetc_size (quotec : Int) (s : Lex) :
    (lgetc quotec s).2.size + taken (lgetc quotec s).1 ≤ s.size := by
  rcases lgetc_cases quotec s with ⟨text, index, b, hbuf, hidx, hb, hget⟩ | ⟨s₀, hget, hin, hmac⟩
  · have hlt : index.toNat < text.bytes.length := (List.getElem?_eq_some_iff.1 hb).1
    have := taken_le_one (schar b)
    simp only [hget, Lex.size, Lex.inputSize, Lex.macroSize, hbuf, CStr.length]
    omega
  · have := lgetcInput_inputSize quotec s₀
    have := lgetcInput_macroSize quotec s₀
    simp only [hget, Lex.size]
    omega

/-- With no macro text left the character was taken from the rest of the input. -/
theorem lgetc_inputSize {quotec : Int} {s : Lex} (h : (lgetc quotec s).2.parsebuf = none) :
    (lgetc quotec s).2.inputSize + taken (lgetc quotec s).1 ≤ s.inputSize := by
  rcases lgetc_cases quotec s with ⟨text, index, b, -, -, -, hget⟩ | ⟨s₀, hget, hin, -⟩
  · simp [hget] at h
  · have := lgetcInput_inputSize quotec s₀
    rw [hget]
    omega

theorem lgetc_size_lt {quotec : Int} {s : Lex} (h : (lgetc quotec s).1 ≠ eof) :
    (lgetc quotec s).2.size < s.size := by
  have := lgetc_size quotec s
  rw [taken_of_ne h] at this
  omega

theorem lgetc_parsebuf_none {quotec : Int} {s : Lex} (h : s.parsebuf = none) :
    (lgetc quotec s).2.parsebuf = none := by
  simp [lgetc, h]

theorem push_inputSize (c : Int) (s : Lex) : (lungetc.push c s).inputSize ≤ s.inputSize + 1 := by
  simp only [lungetc.push]
  split
  · simp only [Lex.inputSize, List.length_cons]
    omega
  · exact Nat.le_succ _

theorem push_macroSize (c : Int) (s : Lex) : (lungetc.push c s).macroSize = s.macroSize := by
  simp only [lungetc.push]
  split <;> rfl

/-- What `lungetc` gives back: nothing, a place in the macro text, or a place in the
pushback buffer. -/
theorem lungetc_sizes (c : Int) (s : Lex) :
    ((lungetc c s).inputSize ≤ s.inputSize ∧ (lungetc c s).macroSize ≤ s.macroSize + 1) ∨
      ((lungetc c s).inputSize ≤ s.inputSize + 1 ∧ (lungetc c s).macroSize ≤ s.macroSize) := by
  simp only [lungetc]
  split_ifs
  · exact .inl ⟨Nat.le_refl _, Nat.le_succ _⟩
  · split
    · exact .inr ⟨push_inputSize c s, (push_macroSize c s).le⟩
    · next text index hbuf =>
        split_ifs with hidx
        · refine .inl ⟨Nat.le_refl _, ?_⟩
          simp only [Lex.macroSize, hbuf]
          omega
        · refine .inr ⟨push_inputSize c _, ?_⟩
          rw [push_macroSize]
          simp only [Lex.macroSize, hbuf]
          omega

theorem lungetc_inputSize (c : Int) (s : Lex) : (lungetc c s).inputSize ≤ s.inputSize + 1 := by
  rcases lungetc_sizes c s with h | h <;> omega

theorem lungetc_size (c : Int) (s : Lex) : (lungetc c s).size ≤ s.size + 1 := by
  simp only [Lex.size]
  rcases lungetc_sizes c s with h | h <;> omega

/-! ## The loops of `yylex` -/

/-- Read on while the characters satisfy `p`, and return the first one that does not.
This is the loop over blanks, the one over a comment and the one in `findeol`. -/
def skip (p : Int → Bool) (s : Lex) : Int × Lex :=
  if _h : (lgetc 0 s).1 ≠ eof ∧ p (lgetc 0 s).1 then skip p (lgetc 0 s).2 else lgetc 0 s
termination_by s.size
decreasing_by exact lgetc_size_lt _h.1

def isBlank (c : Int) : Bool := c = ch ' ' || c = ch '\t'

/-- `findeol`, with its return value `ERROR` left to the caller. -/
def findeol (s : Lex) : Lex :=
  let r := skip (· ≠ ch '\n') { s with parsebuf := none }
  if r.1 = ch '\n' then { r.2 with file := { r.2.file with lineno := r.2.file.lineno + 1 } }
  else r.2

/-- How a loop that fills `buf` ends. -/
inductive Scan
  | done (text : List Byte) (s : Lex)
  | eof (s : Lex)
  | tooLong (s : Lex)

/-- `sizeof(buf)`. -/
def bufSize : Nat := 8096

/-- The loop over the name of a macro. -/
def macroName (name : List Byte) (s : Lex) : Scan :=
  if _h : (lgetc 0 s).1 = eof then .eof (lgetc 0 s).2
  else if name.length + 1 ≥ bufSize - 1 then .tooLong (lgetc 0 s).2
  else if isalnum (lgetc 0 s).1 || (lgetc 0 s).1 = ch '_' then
    macroName (name ++ [toByte (lgetc 0 s).1]) (lgetc 0 s).2
  else .done name (lungetc (lgetc 0 s).1 (lgetc 0 s).2)
termination_by s.size
decreasing_by exact lgetc_size_lt _h

def nextLine (s : Lex) : Lex :=
  { s with file := { s.file with lineno := s.file.lineno + 1 } }

/-- What one pass through the loop over a quoted string does: it ends the loop, adds a
character to the text, or drops a newline. -/
inductive QuoteStep
  | eof (s : Lex)
  | close (s : Lex)
  | char (c : Int) (s : Lex)
  | newline (s : Lex)

/-- The body of the loop over a quoted string. The test for a blank after a backslash
looks at `c`, which is the backslash. -/
def quoteStep (quotec : Int) (s : Lex) : QuoteStep :=
  let r := lgetc quotec s
  let c := r.1
  if c = eof then .eof r.2
  else if c = ch '\n' then .newline (nextLine r.2)
  else if c = ch '\\' then
    let n := lgetc quotec r.2
    let next := n.1
    if next = eof then .eof n.2
    else if next = quotec || c = ch ' ' || c = ch '\t' then .char next n.2
    else if next = ch '\n' then .newline (nextLine n.2)
    else .char c (lungetc next n.2)
  else if c = quotec then .close r.2
  else .char c r.2

/-- The state after a pass that goes on. -/
def QuoteStep.next? : QuoteStep → Option Lex
  | .char _ s | .newline s => some s
  | .eof _ | .close _ => none

@[simp] theorem nextLine_size (s : Lex) : (nextLine s).size = s.size := rfl

theorem quoteStep_size {quotec : Int} {s s' : Lex} (h : (quoteStep quotec s).next? = some s') :
    s'.size < s.size := by
  simp only [quoteStep] at h
  have h₁ := @lgetc_size_lt quotec s
  have h₂ := @lgetc_size_lt quotec (lgetc quotec s).2
  have h₃ := lungetc_size (lgetc quotec (lgetc quotec s).2).1 (lgetc quotec (lgetc quotec s).2).2
  split_ifs at h <;> simp only [QuoteStep.next?, Option.some.injEq, reduceCtorEq] at h <;>
    subst h <;> grind [nextLine_size]

/-- The loop over a quoted string. -/
def quoted (quotec : Int) (text : List Byte) (s : Lex) : Scan :=
  match _h : quoteStep quotec s with
  | .eof s' => .eof s'
  | .close s' => .done text s'
  | .newline s' => quoted quotec text s'
  | .char c s' =>
      if text.length + 1 ≥ bufSize - 1 then .tooLong s' else quoted quotec (text ++ [toByte c]) s'
termination_by s.size
decreasing_by all_goals exact quoteStep_size (by rw [_h]; rfl)

/-- The loops over digits and over words: store `c` and read on while the characters
satisfy `p`. The character after the text is pushed back, and returned. -/
def scan (p : Int → Bool) (text : List Byte) (c : Int) (s : Lex) : Scan × Int :=
  if text.length + 1 ≥ bufSize then (.tooLong s, c)
  else if _h : (lgetc 0 s).1 ≠ eof ∧ p (lgetc 0 s).1 then
    scan p (text ++ [toByte c]) (lgetc 0 s).1 (lgetc 0 s).2
  else (.done (text ++ [toByte c]) (lungetc (lgetc 0 s).1 (lgetc 0 s).2), (lgetc 0 s).1)
termination_by s.size
decreasing_by exact lgetc_size_lt _h.1

theorem skip_parsebuf_none {p : Int → Bool} {s : Lex} (h : s.parsebuf = none) :
    (skip p s).2.parsebuf = none := by
  fun_induction skip p s with
  | case1 s hc ih => exact ih (lgetc_parsebuf_none h)
  | case2 s hc => exact lgetc_parsebuf_none h

theorem skip_inputSize_le (p : Int → Bool) (s : Lex) : (skip p s).2.inputSize ≤ s.inputSize := by
  fun_induction skip p s with
  | case1 s hc ih => exact Nat.le_trans ih (lgetc_inputSize_le 0 s)
  | case2 s hc => exact lgetc_inputSize_le 0 s

theorem skip_inputSize {p : Int → Bool} {s : Lex} (h : (skip p s).2.parsebuf = none) :
    (skip p s).2.inputSize + taken (skip p s).1 ≤ s.inputSize := by
  fun_induction skip p s with
  | case1 s hc ih =>
      have := ih h
      have := lgetc_inputSize_le 0 s
      omega
  | case2 s hc => exact lgetc_inputSize h

/-- Reading the name of a macro outside a macro uses up the name only. -/
theorem macroName_inputSize {name text : List Byte} {s s' : Lex}
    (h : macroName name s = .done text s') (hbuf : s.parsebuf = none) :
    s'.inputSize ≤ s.inputSize := by
  fun_induction macroName name s with
  | case1 | case2 => cases h
  | case3 name s hc hlen hword ih =>
      exact Nat.le_trans (ih h (lgetc_parsebuf_none hbuf)) (lgetc_inputSize_le 0 s)
  | case4 name s hc hlen hword =>
      have hget := lgetc_inputSize (@lgetc_parsebuf_none 0 s hbuf)
      have hunget := lungetc_inputSize (lgetc 0 s).1 (lgetc 0 s).2
      rw [taken_of_ne hc] at hget
      cases h
      omega

theorem lungetc_parsebuf_none {c : Int} {s : Lex} (h : s.parsebuf = none) :
    (lungetc c s).parsebuf = none := by
  simp only [lungetc, lungetc.push, h]
  split_ifs <;> simp [h]

theorem macroName_parsebuf_none {name text : List Byte} {s s' : Lex}
    (h : macroName name s = .done text s') (hbuf : s.parsebuf = none) : s'.parsebuf = none := by
  fun_induction macroName name s with
  | case1 | case2 => cases h
  | case3 name s hc hlen hword ih => exact ih h (lgetc_parsebuf_none hbuf)
  | case4 name s hc hlen hword =>
      cases h
      exact lungetc_parsebuf_none (lgetc_parsebuf_none hbuf)

/-! ## Tokens -/

/-- What `yylex` returns: a character, or one of the tokens of the grammar. -/
inductive Token
  | char (c : Int)
  | network | ethernetname | wirelessname
  | bssid | channel | domainname | domainnameservers | error
  | include | inet | interface | yes
  | lladdr | minsignal | netmask | nwid | no | priority | rundown | runup
  | updateinterval | dhcp | wep | wepkey
  | wpa | wpaakms | wpaciphers | wpagroupcipher | wpakey
  | string
  | number
  deriving DecidableEq, Repr

/-- The table of `lookup`. -/
def keywords : List (CStr × Token) :=
  [(CStr.lit "bssid", .bssid), (CStr.lit "chan", .channel), (CStr.lit "dhcp", .dhcp),
    (CStr.lit "domain-name", .domainname), (CStr.lit "domain-name-servers", .domainnameservers),
    (CStr.lit "error", .error), (CStr.lit "ethernet", .ethernetname),
    (CStr.lit "include", .include), (CStr.lit "inet", .inet), (CStr.lit "interface", .interface),
    (CStr.lit "lladdr", .lladdr), (CStr.lit "minsignal", .minsignal),
    (CStr.lit "netmask", .netmask), (CStr.lit "network", .network), (CStr.lit "no", .no),
    (CStr.lit "nwid", .nwid), (CStr.lit "priority", .priority), (CStr.lit "run-down", .rundown),
    (CStr.lit "run-up", .runup), (CStr.lit "update_interval", .updateinterval),
    (CStr.lit "wep", .wep), (CStr.lit "wepkey", .wepkey), (CStr.lit "wireless", .wirelessname),
    (CStr.lit "wpa", .wpa), (CStr.lit "wpaakms", .wpaakms), (CStr.lit "wpaciphers", .wpaciphers),
    (CStr.lit "wpagroupcipher", .wpagroupcipher), (CStr.lit "wpakey", .wpakey),
    (CStr.lit "yes", .yes)]

/-- `lookup`. The table is sorted, so the binary search of the source finds the one
entry with that word. -/
def lookup (s : CStr) : Token :=
  ((keywords.find? fun k => k.1 = s).map Prod.snd).getD .string

/-- The binary search needs the table in the order of `strcmp`. -/
theorem keywords_sorted :
    (keywords.map fun k => k.1.bytes.map UInt8.toNat).Pairwise (· < ·) := by decide +kernel

/-- `strtonum(buf, LLONG_MIN, LLONG_MAX, &errstr)` on digits that may follow a minus
sign; the error is the text in `errstr`. -/
def strtonum (text : List Byte) : Except String Int :=
  let digits (ds : List Byte) : Int := ds.foldl (fun n d => 10 * n + (d.toNat - 48)) 0
  let n := if text.head? = some 45 then -digits text.tail else digits text
  if n < -2 ^ 63 then .error "too small"
  else if 2 ^ 63 - 1 < n then .error "too large"
  else .ok n

def allowedToEndNumber (c : Int) : Bool :=
  isspace c || c = ch ')' || c = ch ',' || c = ch '/' || c = ch '}' || c = ch '='

def allowedInString (c : Int) : Bool :=
  isalnum c || (ispunct c && c ≠ ch '(' && c ≠ ch ')' && c ≠ ch '{' && c ≠ ch '}' &&
    c ≠ ch '!' && c ≠ ch '=' && c ≠ ch '#' && c ≠ ch ',')

/-- Report an error and skip the rest of the line. -/
def lexError (m : Message) (s : Lex) : Token × Lex := (.error, findeol (yyerror m s))

def lexQuoted (quotec : Int) (s : Lex) : Token × Lex :=
  match quoted quotec [] s with
  | .eof s => (.char 0, s)
  | .tooLong s => lexError .stringTooLong s
  | .done text s => (.string, { s with val := .string (CStr.read text) })

/-- The token for a word. -/
def wordToken (text : List Byte) (s : Lex) : Token × Lex :=
  match lookup (CStr.read text) with
  | .string => (.string, { s with val := .string (CStr.read text) })
  | token => (token, s)

/-- From the second `if` on: words, newlines and single characters. -/
def lexWord (c : Int) (s : Lex) : Token × Lex :=
  if isalnum c || c = ch ':' || c = ch '_' then
    match (scan allowedInString [] c s).1 with
    | .eof s => (.char 0, s)
    | .tooLong s => lexError .stringTooLong s
    | .done text s => wordToken text s
  else if c = ch '\n' then
    (.char c, { s with
      lineno := s.file.lineno
      file := { s.file with lineno := s.file.lineno + 1 } })
  else if c = eof then (.char 0, s)
  else (.char c, s)

/-- The label `nodigits`: push all but the first character back and go on with that. -/
def lexNodigits (text : List Byte) (s : Lex) : Token × Lex :=
  let s := text.tail.reverse.foldl (fun s b => lungetc (schar b) s) s
  let c := schar (text.headD 0)
  if c = ch '-' then (.char c, s) else lexWord c s

def lexNumber (c : Int) (s : Lex) : Token × Lex :=
  let r := scan isdigit [] c s
  match r.1 with
  | .eof s => (.char 0, s)
  | .tooLong s => lexError .stringTooLong s
  | .done text s =>
      if text = [45] then lexNodigits text s
      else if r.2 = eof || allowedToEndNumber r.2 then
        match strtonum text with
        | .ok n => (.number, { s with val := .number n })
        | .error e => lexError (.invalidNumber (CStr.read text) e) s
      else lexNodigits text s

/-- `yylex` from the `switch` on. -/
def lexToken (c : Int) (s : Lex) : Token × Lex :=
  if c = ch '\'' || c = ch '"' then lexQuoted c s
  else if c = ch '-' || isdigit c then lexNumber c s
  else lexWord c s

/-- The beginning of `yylex`: blanks and a comment are skipped. -/
def lexStart (s : Lex) : Int × Lex :=
  let r := skip isBlank s
  let s := { r.2 with lineno := r.2.file.lineno }
  if r.1 = ch '#' then skip (· ≠ ch '\n') s else (r.1, s)

theorem lexStart_inputSize {s : Lex} (hne : (lexStart s).1 ≠ eof)
    (hbuf : (lexStart s).2.parsebuf = none) : (lexStart s).2.inputSize < s.inputSize := by
  simp only [lexStart] at *
  split_ifs at * with hhash
  · have h := skip_inputSize hbuf
    have := skip_inputSize_le isBlank s
    rw [taken_of_ne hne] at h
    simp only [Lex.inputSize] at *
    omega
  · have h := @skip_inputSize isBlank s hbuf
    rw [taken_of_ne hne] at h
    simp only [Lex.inputSize] at *
    omega

/-- The input goes on with a macro to be expanded. -/
def StartsMacro (s : Lex) : Prop := (lexStart s).1 = ch '$' ∧ (lexStart s).2.parsebuf = none

instance (s : Lex) : Decidable (StartsMacro s) := inferInstanceAs (Decidable (_ ∧ _))

/-- `yylex`. -/
def yylex (s : Lex) : Token × Lex :=
  if _h : StartsMacro s then
    match _hname : macroName [] (lexStart s).2 with
    | .eof s' => (.char 0, s')
    | .tooLong s' => lexError .stringTooLong s'
    | .done name s' =>
        match symget (CStr.read name) s' with
        | none => lexError (.macroNotDefined (CStr.read name)) s'
        | some val => yylex { s' with parsebuf := some ⟨val, 0⟩ }
  else lexToken (lexStart s).1 (lexStart s).2
termination_by s.inputSize
decreasing_by
  have hstart := lexStart_inputSize (by rw [_h.1]; decide) _h.2
  have hname := macroName_inputSize _hname _h.2
  exact Nat.lt_of_le_of_lt hname hstart

theorem yylex_of_token {s : Lex} (h : ¬StartsMacro s) :
    yylex s = lexToken (lexStart s).1 (lexStart s).2 := by
  rw [yylex.eq_def, dif_neg h]

theorem yylex_of_eof {s s' : Lex} (h : StartsMacro s)
    (hname : macroName [] (lexStart s).2 = .eof s') : yylex s = (.char 0, s') := by
  rw [yylex.eq_def, dif_pos h]
  split <;> simp_all

theorem yylex_of_tooLong {s s' : Lex} (h : StartsMacro s)
    (hname : macroName [] (lexStart s).2 = .tooLong s') :
    yylex s = lexError .stringTooLong s' := by
  rw [yylex.eq_def, dif_pos h]
  split <;> simp_all

theorem yylex_of_undefined {s s' : Lex} {name : List Byte} (h : StartsMacro s)
    (hname : macroName [] (lexStart s).2 = .done name s')
    (hval : symget (CStr.read name) s' = none) :
    yylex s = lexError (.macroNotDefined (CStr.read name)) s' := by
  rw [yylex.eq_def, dif_pos h]
  split <;> simp_all

theorem yylex_of_expansion {s s' : Lex} {name : List Byte} {val : CStr} (h : StartsMacro s)
    (hname : macroName [] (lexStart s).2 = .done name s')
    (hval : symget (CStr.read name) s' = some val) :
    yylex s = yylex { s' with parsebuf := some ⟨val, 0⟩ } := by
  rw [yylex.eq_def, dif_pos h]
  split <;> simp_all

end Ifconfigd.Parse
