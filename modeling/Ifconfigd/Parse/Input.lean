import Ifconfigd.Lib.Bytes

/-!
# The lexer's input

The lexer of `parse.y` reads characters from three places: the text of the macro
being expanded, a pushback buffer, and the current file, which is the innermost of
a stack of included files. This module models the globals behind `lgetc` and
`lungetc` and these two functions.

Characters are C `int`s. A byte from a file is between 0 and 255; one that was
pushed back, or stands in a macro, went through a `char`, which is signed, so bytes
from 128 on come back negative and 255 comes back as `EOF`.
-/

namespace Ifconfigd.Parse

open CLib

/-- `EOF`. -/
def eof : Int := -1

/-- A byte as `getc` returns it. -/
def uchar (b : Byte) : Int := b.toNat

/-- A byte read through a (signed) `char`. -/
def schar (b : Byte) : Int := if b.toNat < 128 then b.toNat else b.toNat - 256

/-- `(char)c`, and `(unsigned char)c`. -/
def toByte (c : Int) : Byte := UInt8.ofNat (c % 256).toNat

/-- The value of an ASCII character. -/
def ch (c : Char) : Int := c.toNat

/-! ## Character classes -/

/-- The `ctype` macros: `EOF` is in no class, other values are cut to a byte. -/
def isClass (p : Nat → Bool) (c : Int) : Bool := c ≠ eof && p (toByte c).toNat

def isdigit : Int → Bool := isClass fun b => 48 ≤ b && b ≤ 57

def isalnum : Int → Bool :=
  isClass fun b => (48 ≤ b && b ≤ 57) || (65 ≤ b && b ≤ 90) || (97 ≤ b && b ≤ 122)

def isspace : Int → Bool := isClass fun b => (9 ≤ b && b ≤ 13) || b = 32

/-- In the C locale the upper half of the table, from 160 on, counts as
punctuation. -/
def ispunct : Int → Bool :=
  isClass fun b => (33 ≤ b && b ≤ 47) || (58 ≤ b && b ≤ 64) || (91 ≤ b && b ≤ 96) ||
    (123 ≤ b && b ≤ 126) || 160 ≤ b

/-! ## The globals -/

/-- `struct file`: the part of the stream not read yet, and the counters. -/
structure File where
  name : CStr
  rest : List Byte
  lineno : Nat
  errors : Nat
  deriving DecidableEq

/-- `struct sym`. The member `used` is never read and left out. -/
structure Sym where
  nam : CStr
  val : CStr
  persist : Bool
  deriving DecidableEq

/-- The union in `YYSTYPE`. -/
inductive Val
  | none
  | number (n : Int)
  | string (s : CStr)
  deriving DecidableEq

/-- The messages of `yyerror`, with their arguments. -/
inductive Message
  | quotedEof
  | stringTooLong
  | macroNotDefined (name : CStr)
  | invalidNumber (text : CStr) (errstr : String)
  | includeFailed (name : CStr)
  | intervalTooShort
  | networkNameTooLong
  | syntaxError
  | stackOverflow
  deriving DecidableEq

/-- The text of a message. -/
def Message.text : Message → List Byte
  | .quotedEof => asciiBytes "reached end of file while parsing quoted string"
  | .stringTooLong => asciiBytes "string too long"
  | .macroNotDefined name => asciiBytes "macro '" ++ name.bytes ++ asciiBytes "' not defined"
  | .invalidNumber text errstr =>
      asciiBytes "\"" ++ text.bytes ++ asciiBytes "\" invalid number: " ++ asciiBytes errstr
  | .includeFailed name => asciiBytes "failed to include file " ++ name.bytes
  | .intervalTooShort => asciiBytes "update interval is to short"
  | .networkNameTooLong => asciiBytes "network name too long (max length 64)"
  | .syntaxError => asciiBytes "syntax error"
  | .stackOverflow => asciiBytes "yacc stack overflow"

/-- A line `yyerror` wrote. -/
structure Diag where
  file : CStr
  lineno : Nat
  message : Message
  deriving DecidableEq

/-- The macro text being read, `parsebuf`, and `parseindex`, the position in it. -/
structure Parsebuf where
  text : CStr
  index : Int
  deriving DecidableEq

/-- The globals of the lexer. `prev` is the list of the files behind the current one,
innermost first; `pushback` has the character to be read next in front; `lineno` and
`val` are the members of `yylval`. `parseindex` is part of `parsebuf`: while that is
null, it is not read. `diags` records what was reported, last first. -/
structure Lex where
  file : File
  prev : List File
  parsebuf : Option Parsebuf
  pushback : List Byte
  symhead : List Sym
  lineno : Nat
  val : Val
  diags : List Diag
  deriving DecidableEq

/-- `yyerror`. -/
def yyerror (m : Message) (s : Lex) : Lex :=
  { s with
    file := { s.file with errors := s.file.errors + 1 }
    diags := ⟨s.file.name, s.lineno, m⟩ :: s.diags }

/-- `popfile`; `none` is the return value `EOF`. -/
def popfile (s : Lex) : Option Lex :=
  match s.prev with
  | [] => none
  | p :: ps => some { s with file := { p with errors := p.errors + s.file.errors }, prev := ps }

/-- `symget`: the value of the first entry with that name. -/
def symget (nam : CStr) (s : Lex) : Option CStr :=
  (s.symhead.find? fun sym => sym.nam = nam).map Sym.val

/-! ## `lgetc` -/

/-- The loop that joins continued lines: the character found, `none` at the end of
the file, what is left of the file, its line number and `yylval.lineno`. After a
backslash that does not end its line the next character is taken as it is. -/
def joinLines : List Byte → Nat → Nat → Option Byte × List Byte × Nat × Nat
  | [], fl, vl => (none, [], fl, vl)
  | b :: rest, fl, vl =>
      if b ≠ 92 then (some b, rest, fl, vl)
      else
        match rest with
        | [] => (none, [], fl, vl)
        | next :: rest' =>
            if next ≠ 10 then (some next, rest', fl, vl) else joinLines rest' (fl + 1) fl

/-- `while (c == EOF)`: leave exhausted files until one has a character. -/
def popWhileEof : File → List File → Int × File × List File
  | f, [] => (eof, f, [])
  | f, p :: ps =>
      match p.rest with
      | [] => popWhileEof { p with errors := p.errors + f.errors } ps
      | b :: rest => (uchar b, { p with errors := p.errors + f.errors, rest }, ps)

/-- The part of `lgetc(0)` that reads the file. -/
def getcJoined (s : Lex) : Int × Lex :=
  let j := joinLines s.file.rest s.file.lineno s.lineno
  let file := { s.file with rest := j.2.1, lineno := j.2.2.1 }
  match j.1 with
  | some b => (uchar b, { s with file, lineno := j.2.2.2 })
  | none =>
      let r := popWhileEof file s.prev
      (r.1, { s with file := r.2.1, prev := r.2.2, lineno := j.2.2.2 })

/-- The part of `lgetc(quotec)` that reads the file inside quotes. At the end of an
included file the missing quote is reported and supplied. -/
def getcQuoted (quotec : Int) (s : Lex) : Int × Lex :=
  match s.file.rest with
  | b :: rest => (uchar b, { s with file := { s.file with rest } })
  | [] =>
      let s := yyerror .quotedEof s
      match popfile s with
      | none => (eof, s)
      | some s => (quotec, s)

/-- `lgetc` after the macro text: the pushback buffer, then the file. -/
def lgetcInput (quotec : Int) (s : Lex) : Int × Lex :=
  match s.pushback with
  | b :: rest => (schar b, { s with pushback := rest })
  | [] => if quotec ≠ 0 then getcQuoted quotec s else getcJoined s

/-- `lgetc`. -/
def lgetc (quotec : Int) (s : Lex) : Int × Lex :=
  match s.parsebuf with
  | none => lgetcInput quotec s
  | some ⟨text, index⟩ =>
      if 0 ≤ index then
        match text.bytes[index.toNat]? with
        | some b => (schar b, { s with parsebuf := some ⟨text, index + 1⟩ })
        | none => lgetcInput quotec { s with parsebuf := none }
      else lgetcInput quotec { s with parsebuf := some ⟨text, index + 1⟩ }

/-- `MAXPUSHBACK`. -/
def maxPushback : Nat := 128

/-- `lungetc`. While a macro is read it steps back in the macro text, without looking
at the character it is given. -/
def lungetc (c : Int) (s : Lex) : Lex :=
  if c = eof then s
  else
    match s.parsebuf with
    | none => push s
    | some ⟨text, index⟩ =>
        let s := { s with parsebuf := some ⟨text, index - 1⟩ }
        if 0 ≤ index - 1 then s else push s
where
  push (s : Lex) : Lex :=
    if s.pushback.length < maxPushback - 1 then { s with pushback := toByte c :: s.pushback } else s

/-! ## Characters -/

theorem schar_of_lt {b : Byte} (h : b < 128) : schar b = b.toNat := by
  rw [schar, if_pos (by simpa using UInt8.lt_iff_toNat_lt.1 h)]

theorem uchar_of_lt {b : Byte} (h : b < 128) : uchar b = schar b := by
  rw [schar_of_lt h, uchar]

theorem toByte_schar (b : Byte) : toByte (schar b) = b := by
  have := b.toNat_lt
  apply UInt8.toNat_inj.1
  simp only [schar, toByte, UInt8.toNat_ofNat']
  split <;> omega

theorem schar_ne_eof {b : Byte} (h : b < 128) : schar b ≠ eof := by
  rw [schar_of_lt h, eof]
  omega

theorem schar_range (b : Byte) : -128 ≤ schar b ∧ schar b < 256 := by
  have := b.toNat_lt
  simp only [schar]
  split <;> omega

theorem uchar_range (b : Byte) : -128 ≤ uchar b ∧ uchar b < 256 := by
  have := b.toNat_lt
  simp only [uchar]
  omega

theorem eof_range : -128 ≤ eof ∧ eof < 256 := by decide

theorem popWhileEof_range (f : File) (prev : List File) :
    -128 ≤ (popWhileEof f prev).1 ∧ (popWhileEof f prev).1 < 256 := by
  fun_induction popWhileEof f prev with
  | case1 f => exact eof_range
  | case2 f p ps hrest ih => exact ih
  | case3 f p ps b rest hrest => exact uchar_range b

theorem lgetcInput_range {quotec : Int} (hq : quotec = 0 ∨ quotec = ch '\'' ∨ quotec = ch '"')
    (s : Lex) : -128 ≤ (lgetcInput quotec s).1 ∧ (lgetcInput quotec s).1 < 256 := by
  have hquote : -128 ≤ quotec ∧ quotec < 256 := by
    rcases hq with rfl | rfl | rfl <;> decide
  simp only [lgetcInput]
  split
  · exact schar_range _
  · split
    · simp only [getcQuoted]
      split
      · exact uchar_range _
      · split
        · exact eof_range
        · exact hquote
    · simp only [getcJoined]
      split
      · exact uchar_range _
      · exact popWhileEof_range _ _

theorem lgetc_range {quotec : Int} (hq : quotec = 0 ∨ quotec = ch '\'' ∨ quotec = ch '"')
    (s : Lex) : -128 ≤ (lgetc quotec s).1 ∧ (lgetc quotec s).1 < 256 := by
  simp only [lgetc]
  split
  · exact lgetcInput_range hq s
  · split
    · split
      · exact schar_range _
      · exact lgetcInput_range hq _
    · exact lgetcInput_range hq _

theorem uchar_ne_eof (b : Byte) : uchar b ≠ eof := by
  simp only [uchar, eof]
  omega

theorem toByte_uchar (b : Byte) : toByte (uchar b) = b := by
  have := b.toNat_lt
  apply UInt8.toNat_inj.1
  simp only [uchar, toByte, UInt8.toNat_ofNat']
  omega

theorem schar_toByte {c : Int} (h₁ : -128 ≤ c) (h₂ : c < 128) : schar (toByte c) = c := by
  simp only [schar, toByte, UInt8.toNat_ofNat']
  split <;> omega

theorem isdigit_iff {c : Int} (h₁ : -128 ≤ c) (h₂ : c < 256) :
    isdigit c = true ↔ 48 ≤ c ∧ c ≤ 57 := by
  simp only [isdigit, isClass, Bool.and_eq_true, decide_eq_true_eq]
  simp only [toByte, eof, UInt8.toNat_ofNat']
  omega

/-! ## Reading the text of a file -/

/-- The file goes on with `text`. -/
def Lex.withText (s : Lex) (text : List Byte) : Lex := { s with file := { s.file with rest := text } }

@[simp] theorem withText_withText (s : Lex) (text text' : List Byte) :
    (s.withText text).withText text' = s.withText text' := rfl

theorem joinLines_of_ne {b : Byte} (hb : b ≠ 92) (rest : List Byte) (fl vl : Nat) :
    joinLines (b :: rest) fl vl = (some b, rest, fl, vl) := by
  rw [joinLines.eq_def]
  simp [hb]

/-- Reading a character of the file that is no backslash. -/
theorem lgetc_of_file {s : Lex} {b : Byte} {rest : List Byte} (hbuf : s.parsebuf = none)
    (hpush : s.pushback = []) (hrest : s.file.rest = b :: rest) (hb : b ≠ 92) (quotec : Int) :
    lgetc quotec s = (uchar b, s.withText rest) := by
  obtain ⟨⟨name, _, lineno, errors⟩, prev, _, _, symhead, vlineno, val, diags⟩ := s
  subst hbuf hpush hrest
  simp only [lgetc, lgetcInput]
  split
  · rfl
  · simp only [getcJoined, joinLines_of_ne hb]
    rfl

end Ifconfigd.Parse
