import Ifconfigd.Parse.Lexer

/-!
# What the lexer does with its arrays

`yylex` fills `buf`, reads the pushback buffer and the macro text, and steps back in
them. Its accesses are listed here call by call, along the states of `yylex` itself: a
call of `lgetc` or `lungetc` in a state, or an access to `buf`.
-/

namespace Ifconfigd.Parse

open CLib

/-! ## Accesses -/

/-- An access to an array: to `buf`, to `pushback_buffer`, or to `parsebuf` with its
terminating NUL. -/
inductive Access
  | buf (i : Nat)
  | pushback (i : Nat)
  | parsebuf (text : CStr) (i : Int)

def Access.InBounds : Access → Prop
  | buf i => i < bufSize
  | pushback i => i < maxPushback
  | parsebuf text i => 0 ≤ i ∧ i ≤ text.length

/-- `pushback_buffer[--pushback_index]`, if there is something in it. -/
def popAccesses (s : Lex) : List Access :=
  if s.pushback = [] then [] else [.pushback (s.pushback.length - 1)]

/-- `pushback_buffer[pushback_index++]`, if there is room. -/
def pushAccesses (s : Lex) : List Access :=
  if s.pushback.length < maxPushback - 1 then [.pushback s.pushback.length] else []

def lgetcAccesses (s : Lex) : List Access :=
  match s.parsebuf with
  | none => popAccesses s
  | some ⟨text, index⟩ =>
      if 0 ≤ index then
        .parsebuf text index ::
          if text.bytes[index.toNat]? = none then popAccesses s else []
      else popAccesses s

def lungetcAccesses (c : Int) (s : Lex) : List Access :=
  if c = eof then []
  else
    match s.parsebuf with
    | none => pushAccesses s
    | some ⟨_, index⟩ => if 0 ≤ index - 1 then [] else pushAccesses s

/-- What the lexer does with its arrays: call `lgetc` or `lungetc` in a state, or use an
entry of `buf`. -/
inductive LexOp
  | lgetc (quotec : Int) (s : Lex)
  | lungetc (c : Int) (s : Lex)
  | buf (i : Nat)

namespace LexOp

def accesses : LexOp → List Access
  | lgetc _ s => lgetcAccesses s
  | lungetc c s => lungetcAccesses c s
  | buf i => [.buf i]

/-- The states before and after. -/
def states : LexOp → List Lex
  | lgetc quotec s => [s, (Parse.lgetc quotec s).2]
  | lungetc c s => [s, Parse.lungetc c s]
  | buf _ => []

end LexOp

/-! ## The operations of `yylex`

The pointer `p` is the index `n` in `buf`. -/

def skipOps (p : Int → Bool) (s : Lex) : List LexOp :=
  if _h : (lgetc 0 s).1 ≠ eof ∧ p (lgetc 0 s).1 then .lgetc 0 s :: skipOps p (lgetc 0 s).2
  else [.lgetc 0 s]
termination_by s.size
decreasing_by exact lgetc_size_lt _h.1

/-- In `findeol` the pushback buffer is read without `lgetc`, which would read the same
entry. -/
def findeolOps (s : Lex) : List LexOp := skipOps (· ≠ ch '\n') { s with parsebuf := none }

def lexErrorOps (m : Message) (s : Lex) : List LexOp := findeolOps (yyerror m s)

def macroNameOps (n : Nat) (s : Lex) : List LexOp :=
  if _h : (lgetc 0 s).1 = eof then [.lgetc 0 s]
  else if n + 1 ≥ bufSize - 1 then [.lgetc 0 s]
  else if isalnum (lgetc 0 s).1 || (lgetc 0 s).1 = ch '_' then
    .lgetc 0 s :: .buf n :: macroNameOps (n + 1) (lgetc 0 s).2
  else [.lgetc 0 s, .buf n, .lungetc (lgetc 0 s).1 (lgetc 0 s).2]
termination_by s.size
decreasing_by exact lgetc_size_lt _h

def quoteStepOps (quotec : Int) (s : Lex) : List LexOp :=
  let r := lgetc quotec s
  let n := lgetc quotec r.2
  .lgetc quotec s ::
    if r.1 = ch '\\' then
      .lgetc quotec r.2 ::
        if n.1 = eof || n.1 = quotec || n.1 = ch '\n' then [] else [.lungetc n.1 n.2]
    else []

def quotedOps (quotec : Int) (n : Nat) (s : Lex) : List LexOp :=
  match _h : quoteStep quotec s with
  | .eof _ => quoteStepOps quotec s
  | .close _ => quoteStepOps quotec s ++ [.buf n]
  | .newline s' => quoteStepOps quotec s ++ quotedOps quotec n s'
  | .char _ s' =>
      if n + 1 ≥ bufSize - 1 then quoteStepOps quotec s
      else quoteStepOps quotec s ++ .buf n :: quotedOps quotec (n + 1) s'
termination_by s.size
decreasing_by all_goals exact quoteStep_size (by rw [_h]; rfl)

def scanOps (p : Int → Bool) (n : Nat) (s : Lex) : List LexOp :=
  if n + 1 ≥ bufSize then [.buf n]
  else if _h : (lgetc 0 s).1 ≠ eof ∧ p (lgetc 0 s).1 then
    .buf n :: .lgetc 0 s :: scanOps p (n + 1) (lgetc 0 s).2
  else [.buf n, .lgetc 0 s, .lungetc (lgetc 0 s).1 (lgetc 0 s).2]
termination_by s.size
decreasing_by exact lgetc_size_lt _h.1

def lexQuotedOps (quotec : Int) (s : Lex) : List LexOp :=
  quotedOps quotec 0 s ++
    match quoted quotec [] s with
    | .tooLong s => lexErrorOps .stringTooLong s
    | _ => []

def lexWordOps (c : Int) (s : Lex) : List LexOp :=
  if isalnum c || c = ch ':' || c = ch '_' then
    scanOps allowedInString 0 s ++
      match (scan allowedInString [] c s).1 with
      | .eof _ => []
      | .tooLong s => lexErrorOps .stringTooLong s
      | .done text _ => [.buf text.length]
  else []

/-- `while (p > buf + 1) lungetc(*--p);` for the characters `bs`, the last one first. -/
def unreadOps : List Byte → Lex → List LexOp
  | [], _ => []
  | b :: bs, s => .buf (bs.length + 1) :: .lungetc (schar b) s :: unreadOps bs (lungetc (schar b) s)

def lexNodigitsOps (text : List Byte) (s : Lex) : List LexOp :=
  let s' := text.tail.reverse.foldl (fun s b => lungetc (schar b) s) s
  let c := schar (text.headD 0)
  unreadOps text.tail.reverse s ++ .buf 0 :: if c = ch '-' then [] else lexWordOps c s'

def lexNumberOps (c : Int) (s : Lex) : List LexOp :=
  let r := scan isdigit [] c s
  scanOps isdigit 0 s ++
    match r.1 with
    | .eof _ => []
    | .tooLong s => lexErrorOps .stringTooLong s
    | .done text s =>
        .buf 0 ::
          if text = [45] then lexNodigitsOps text s
          else if r.2 = eof || allowedToEndNumber r.2 then
            .buf text.length ::
              match strtonum text with
              | .ok _ => []
              | .error e => lexErrorOps (.invalidNumber (CStr.read text) e) s
          else lexNodigitsOps text s

def lexTokenOps (c : Int) (s : Lex) : List LexOp :=
  if c = ch '\'' || c = ch '"' then lexQuotedOps c s
  else if c = ch '-' || isdigit c then lexNumberOps c s
  else lexWordOps c s

def lexStartOps (s : Lex) : List LexOp :=
  let r := skip isBlank s
  skipOps isBlank s ++
    if r.1 = ch '#' then skipOps (· ≠ ch '\n') { r.2 with lineno := r.2.file.lineno } else []

/-- Up to the end of the name of a macro. -/
def lexNameOps (s : Lex) : List LexOp := lexStartOps s ++ macroNameOps 0 (lexStart s).2

/-- Everything a call of `yylex` does with its arrays. -/
def yylexOps (s : Lex) : List LexOp :=
  if _h : StartsMacro s then
    match _hname : macroName [] (lexStart s).2 with
    | .eof _ => lexNameOps s
    | .tooLong s' => lexNameOps s ++ lexErrorOps .stringTooLong s'
    | .done name s' =>
        match symget (CStr.read name) s' with
        | none => lexNameOps s ++ lexErrorOps (.macroNotDefined (CStr.read name)) s'
        | some val => lexNameOps s ++ yylexOps { s' with parsebuf := some ⟨val, 0⟩ }
  else lexStartOps s ++ lexTokenOps (lexStart s).1 (lexStart s).2
termination_by s.inputSize
decreasing_by
  have hstart := lexStart_inputSize (by rw [_h.1]; decide) _h.2
  have hname := macroName_inputSize _hname _h.2
  exact Nat.lt_of_le_of_lt hname hstart

end Ifconfigd.Parse
