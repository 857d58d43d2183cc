import Ifconfigd.Parse.Bounds
import Ifconfigd.Parse.Tokens

/-!
# The characters ahead

What the lexer will read next, wherever it comes from: the rest of the macro text, the
pushback buffer, then the file. As long as these last, a call of `lgetc` takes one
character from the front, and `lungetc` puts it back.
-/

namespace Ifconfigd.Parse

open CLib

/-- What is left of the macro text. -/
def Lex.macroRest (s : Lex) : List Byte :=
  match s.parsebuf with
  | none => []
  | some ⟨text, i⟩ => text.bytes.drop i.toNat

/-- The characters before the lexer, up to the end of the current file. -/
def Lex.ahead (s : Lex) : List Byte := s.macroRest ++ (s.pushback ++ s.file.rest)

/-- The state once `k` characters were taken outside a macro. -/
def Lex.dropInput (s : Lex) (k : Nat) : Lex :=
  { s with
    pushback := s.pushback.drop k
    file := { s.file with rest := s.file.rest.drop (k - s.pushback.length) } }

/-- The state once `k` characters were taken. The macro text is given up when a character
after it is read. -/
def Lex.after (s : Lex) (k : Nat) : Lex :=
  match s.parsebuf with
  | none => s.dropInput k
  | some ⟨text, i⟩ =>
      if k ≤ s.macroRest.length then { s with parsebuf := some ⟨text, i + k⟩ }
      else { s with parsebuf := none }.dropInput (k - s.macroRest.length)

section Ahead

variable {s : Lex}

theorem macroRest_of_none (h : s.parsebuf = none) : s.macroRest = [] := by
  rw [Lex.macroRest, h]

theorem ahead_of_none (h : s.parsebuf = none) : s.ahead = s.pushback ++ s.file.rest := by
  rw [Lex.ahead, macroRest_of_none h, List.nil_append]

theorem macroRest_of_some {text : CStr} {i : Int} (h : s.parsebuf = some ⟨text, i⟩) :
    s.macroRest = text.bytes.drop i.toNat := by
  rw [Lex.macroRest, h]

theorem after_of_none (h : s.parsebuf = none) (k : Nat) : s.after k = s.dropInput k := by
  rw [Lex.after, h]

theorem after_of_le {text : CStr} {i : Int} (h : s.parsebuf = some ⟨text, i⟩) {k : Nat}
    (hk : k ≤ s.macroRest.length) : s.after k = { s with parsebuf := some ⟨text, i + k⟩ } := by
  rw [Lex.after, h]
  exact if_pos hk

theorem after_of_lt {k : Nat} (hk : s.macroRest.length < k) :
    s.after k = { s with parsebuf := none }.dropInput (k - s.macroRest.length) := by
  rw [Lex.after]
  split
  · next h =>
      rw [macroRest_of_none h, ← h]
      rfl
  · exact if_neg (by omega)

@[simp] theorem dropInput_dropInput (j k : Nat) :
    (s.dropInput j).dropInput k = s.dropInput (j + k) := by
  simp only [Lex.dropInput, List.drop_drop, List.length_drop]
  congr 3
  omega

theorem macroRest_after_of_le {k : Nat} (h : s.Bounded) (hk : k ≤ s.macroRest.length) :
    (s.after k).macroRest = s.macroRest.drop k := by
  cases hbuf : s.parsebuf with
  | none =>
      rw [after_of_none hbuf, macroRest_of_none hbuf]
      simp [Lex.macroRest, Lex.dropInput, hbuf]
  | some buf =>
      obtain ⟨text, i⟩ := buf
      have hi := (h.parsebuf text i hbuf).1
      rw [after_of_le hbuf hk, macroRest_of_some hbuf, macroRest_of_some rfl, List.drop_drop]
      congr 1
      omega

theorem macroRest_after_of_lt {k : Nat} (hk : s.macroRest.length < k) :
    (s.after k).macroRest = [] := by
  rw [after_of_lt hk]
  rfl

@[simp] theorem dropInput_zero : s.dropInput 0 = s := by
  simp [Lex.dropInput]

@[simp] theorem after_zero : s.after 0 = s := by
  cases hbuf : s.parsebuf with
  | none => rw [after_of_none hbuf, dropInput_zero]
  | some buf =>
      rw [after_of_le hbuf (Nat.zero_le _)]
      simp [← hbuf]

/-- Inside the macro text nothing else changes. -/
theorem input_after_of_le {k : Nat} (hk : k ≤ s.macroRest.length) :
    (s.after k).pushback = s.pushback ∧ (s.after k).file = s.file := by
  cases hbuf : s.parsebuf with
  | none =>
      rw [macroRest_of_none hbuf, List.length_nil, Nat.le_zero] at hk
      rw [after_of_none hbuf, hk, dropInput_zero]
      exact ⟨rfl, rfl⟩
  | some buf =>
      rw [after_of_le hbuf hk]
      exact ⟨rfl, rfl⟩

/-- Taking characters takes them from the front. -/
theorem ahead_after (h : s.Bounded) (k : Nat) : (s.after k).ahead = s.ahead.drop k := by
  by_cases hk : k ≤ s.macroRest.length
  · obtain ⟨hpush, hfile⟩ := input_after_of_le hk
    rw [Lex.ahead, Lex.ahead, macroRest_after_of_le h hk, hpush, hfile,
      List.drop_append_of_le_length hk]
  · have hlt : s.macroRest.length < k := Nat.lt_of_not_le hk
    rw [Lex.ahead, Lex.ahead, macroRest_after_of_lt hlt, after_of_lt hlt, List.drop_append,
      List.drop_eq_nil_of_le (Nat.le_of_lt hlt), List.nil_append, List.nil_append,
      List.drop_append]
    rfl

theorem after_after (h : s.Bounded) (j k : Nat) : (s.after j).after k = s.after (j + k) := by
  by_cases hj : j ≤ s.macroRest.length
  · cases hbuf : s.parsebuf with
    | none =>
        rw [macroRest_of_none hbuf, List.length_nil, Nat.le_zero] at hj
        rw [after_of_none hbuf, hj, dropInput_zero, Nat.zero_add]
    | some buf =>
        obtain ⟨text, i⟩ := buf
        have hrest := macroRest_after_of_le h hj
        have hafter := after_of_le hbuf hj
        by_cases hk : j + k ≤ s.macroRest.length
        · have hbuf' : (s.after j).parsebuf = some ⟨text, i + j⟩ := by rw [hafter]
          rw [after_of_le hbuf' (by rw [hrest, List.length_drop]; omega), after_of_le hbuf hk,
            hafter, Int.natCast_add, Int.add_assoc]
        · have hlt : (s.after j).macroRest.length < k := by
            rw [hrest, List.length_drop]
            omega
          have hk' : k - (s.macroRest.length - j) = j + k - s.macroRest.length := by omega
          rw [after_of_lt hlt, after_of_lt (Nat.lt_of_not_le hk), hrest, List.length_drop, hafter, hk']
  · have hlt : s.macroRest.length < j := Nat.lt_of_not_le hj
    have hnone : (s.after j).parsebuf = none := by
      rw [after_of_lt hlt]
      rfl
    have hk' : j - s.macroRest.length + k = j + k - s.macroRest.length := by omega
    rw [after_of_none hnone, after_of_lt hlt, after_of_lt (Nat.lt_add_right k hlt),
      dropInput_dropInput, hk']

theorem Lex.Bounded.after (h : s.Bounded) (k : Nat) : (s.after k).Bounded := by
  have hpush := h.pushback
  by_cases hk : k ≤ s.macroRest.length
  · refine ⟨by rw [(input_after_of_le hk).1]; exact hpush, ?_⟩
    cases hbuf : s.parsebuf with
    | none =>
        rw [after_of_none hbuf]
        exact fun _ _ hsome => by simp [Lex.dropInput, hbuf] at hsome
    | some buf =>
        obtain ⟨text, i⟩ := buf
        have hi := h.parsebuf text i hbuf
        rw [macroRest_of_some hbuf, List.length_drop] at hk
        rw [after_of_le hbuf (by rwa [macroRest_of_some hbuf, List.length_drop])]
        rintro _ _ ⟨⟩
        rw [CStr.length] at hi ⊢
        omega
  · rw [after_of_lt (Nat.lt_of_not_le hk)]
    refine ⟨?_, fun _ _ hsome => by cases hsome⟩
    simp only [Lex.dropInput, List.length_drop]
    omega

theorem prev_after (s : Lex) (k : Nat) : (s.after k).prev = s.prev := by
  rw [Lex.after]
  split
  · rfl
  · split <;> rfl

theorem diags_after (s : Lex) (k : Nat) : (s.after k).diags = s.diags := by
  rw [Lex.after]
  split
  · rfl
  · split <;> rfl

/-! ## Reading and stepping back -/

/-- `lgetc` outside a macro takes the next character. A backslash stands for itself inside
quotes only. -/
theorem lgetcInput_ahead {b : Byte} {w : List Byte} {quotec : Int}
    (hs : s.pushback ++ s.file.rest = b :: w) (hslash : b ≠ 92 ∨ quotec ≠ 0) :
    (lgetcInput quotec s).2 = s.dropInput 1 ∧
      ((lgetcInput quotec s).1 = schar b ∨ (lgetcInput quotec s).1 = uchar b) := by
  obtain ⟨⟨name, rest, lineno, errors⟩, prev, parsebuf, pushback, symhead, vlineno, val, diags⟩ := s
  cases pushback with
  | cons c pushback =>
      obtain ⟨rfl, -⟩ := List.cons.inj hs
      exact ⟨by simp [lgetcInput, Lex.dropInput], .inl rfl⟩
  | nil =>
      obtain rfl : rest = b :: w := hs
      by_cases hq : quotec = 0
      · subst hq
        have hne := hslash.resolve_right (by simp)
        simp only [lgetcInput, getcJoined, joinLines_of_ne hne, Lex.dropInput]
        exact ⟨rfl, .inr rfl⟩
      · simp only [lgetcInput, if_pos hq, getcQuoted]
        exact ⟨rfl, .inr trivial⟩

theorem lgetc_ahead {b : Byte} {w : List Byte} {quotec : Int} (h : s.Bounded)
    (hs : s.ahead = b :: w) (hslash : b ≠ 92 ∨ quotec ≠ 0) :
    (lgetc quotec s).2 = s.after 1 ∧
      ((lgetc quotec s).1 = schar b ∨ (lgetc quotec s).1 = uchar b) := by
  cases hbuf : s.parsebuf with
  | none =>
      rw [ahead_of_none hbuf] at hs
      have hget : lgetc quotec s = lgetcInput quotec s := by rw [lgetc.eq_def, hbuf]
      rw [hget, after_of_none hbuf]
      exact lgetcInput_ahead hs hslash
  | some buf =>
      obtain ⟨text, i⟩ := buf
      have hi := (h.parsebuf text i hbuf).1
      have hrest := macroRest_of_some hbuf
      cases hb : text.bytes[i.toNat]? with
      | some c =>
          obtain ⟨hlt, hc⟩ := List.getElem?_eq_some_iff.1 hb
          rw [Lex.ahead, hrest, List.drop_eq_getElem_cons hlt, hc] at hs
          obtain ⟨rfl, -⟩ := List.cons.inj hs
          have hget : lgetc quotec s = (schar c, { s with parsebuf := some ⟨text, i + 1⟩ }) := by
            simp only [lgetc, hbuf, if_pos hi, hb]
          rw [hget, after_of_le hbuf (by rw [hrest, List.length_drop]; omega)]
          exact ⟨rfl, .inl rfl⟩
      | none =>
          have hnil : s.macroRest = [] := by
            rw [hrest]
            exact List.drop_eq_nil_of_le (List.getElem?_eq_none_iff.1 hb)
          have hget : lgetc quotec s = lgetcInput quotec { s with parsebuf := none } := by
            simp only [lgetc, hbuf, if_pos hi, hb]
          rw [Lex.ahead, hnil] at hs
          rw [hget, after_of_lt (by rw [hnil]; exact Nat.zero_lt_one), hnil]
          exact lgetcInput_ahead (s := { s with parsebuf := none }) hs hslash

/-- In the macro text `lungetc` undoes `lgetc`. -/
theorem lungetc_after_of_le {c : Int} {k : Nat} (h : s.Bounded) (hne : c ≠ eof)
    (hk : k + 1 ≤ s.macroRest.length) : lungetc c (s.after (k + 1)) = s.after k := by
  cases hbuf : s.parsebuf with
  | none =>
      rw [macroRest_of_none hbuf] at hk
      cases hk
  | some buf =>
      obtain ⟨text, i⟩ := buf
      have hi := (h.parsebuf text i hbuf).1
      have hindex : i + (k + 1 : Nat) - 1 = i + k := by omega
      rw [after_of_le hbuf hk, after_of_le hbuf (by omega), lungetc, if_neg hne]
      simp only [hindex]
      rw [if_pos (by omega)]

/-- Outside a macro the character goes to the pushback buffer, if there is room. -/
theorem lungetc_of_none {c : Int} (hbuf : s.parsebuf = none) (hne : c ≠ eof)
    (hroom : s.pushback.length < maxPushback - 1) :
    lungetc c s = { s with pushback := toByte c :: s.pushback } := by
  simp only [lungetc, if_neg hne, hbuf, lungetc.push, if_pos hroom]

/-- A character that was just taken can be put back. -/
theorem lungetc_ahead {b : Byte} {w : List Byte} {c : Int} (h : s.Bounded) (hs : s.ahead = b :: w)
    (hc : toByte c = b) (hne : c ≠ eof) :
    (lungetc c (s.after 1)).ahead = b :: w ∧ (lungetc c (s.after 1)).Bounded ∧
      (lungetc c (s.after 1)).prev = s.prev := by
  by_cases hrest : s.macroRest = []
  · have hpush := h.pushback
    have hafter := after_of_lt (s := s) (k := 1) (by rw [hrest]; exact Nat.zero_lt_one)
    have hnone : (s.after 1).parsebuf = none := by
      rw [hafter]
      rfl
    have hback : (s.after 1).pushback = s.pushback.drop 1 := by
      rw [hafter, hrest]
      rfl
    have hroom : (s.after 1).pushback.length < maxPushback - 1 := by
      rw [hback, List.length_drop]
      have : 0 < maxPushback - 1 := by decide
      omega
    have hahead := ahead_after h 1
    rw [hs, ahead_of_none hnone, List.drop_one, List.tail_cons] at hahead
    rw [lungetc_of_none hnone hne hroom, hc]
    refine ⟨?_, ⟨?_, fun _ _ hsome => by simp [hnone] at hsome⟩, prev_after s 1⟩
    · refine (ahead_of_none ?_).trans (congrArg (b :: ·) hahead)
      exact hnone
    · rw [List.length_cons]
      omega
  · have hk : 0 + 1 ≤ s.macroRest.length := List.length_pos_iff.2 hrest
    rw [lungetc_after_of_le h hne hk, after_zero]
    exact ⟨hs, h, rfl⟩

/-- Taking a 7-bit character. -/
theorem lgetc_eq {b : Byte} {w : List Byte} (quotec : Int) (h : s.Bounded) (hs : s.ahead = b :: w)
    (hb : b < 128) (hslash : b ≠ 92 ∨ quotec ≠ 0) : lgetc quotec s = (schar b, s.after 1) := by
  obtain ⟨hafter, hc | hc⟩ := lgetc_ahead h hs hslash
  · exact Prod.ext hc hafter
  · exact Prod.ext (hc.trans (uchar_of_lt hb)) hafter

theorem ahead_after_one {b : Byte} {w : List Byte} (h : s.Bounded) (hs : s.ahead = b :: w) :
    (s.after 1).ahead = w := by
  rw [ahead_after h, hs]
  rfl

/-! ## The beginning of a token -/

/-- The state in which the first character `b` of a token was read. -/
def Lex.begun (s : Lex) : Lex := { s.after 1 with lineno := (s.after 1).file.lineno }

theorem Lex.Bounded.begun (h : s.Bounded) : s.begun.Bounded :=
  ⟨(h.after 1).pushback, (h.after 1).parsebuf⟩

theorem ahead_begun {b : Byte} {w : List Byte} (h : s.Bounded) (hs : s.ahead = b :: w) :
    s.begun.ahead = w := ahead_after_one h hs

theorem prev_begun (s : Lex) : s.begun.prev = s.prev := prev_after s 1

/-- `yylex` goes on with the character ahead, if that begins a token. -/
theorem yylex_of_ahead {b : Byte} {w : List Byte} (h : s.Bounded) (hs : s.ahead = b :: w)
    (hb : Begins b) : yylex s = lexToken (schar b) s.begun := by
  obtain ⟨⟨hascii, hslash⟩, hblank, hhash, hdollar⟩ := hb
  have hget := lgetc_eq 0 h hs hascii (.inl hslash)
  have hblank' : isBlank (schar b) = false := by
    rw [Bool.eq_false_iff]
    intro heq
    rw [isBlank, Bool.or_eq_true, decide_eq_true_eq, decide_eq_true_eq] at heq
    exact hblank (heq.imp (schar_inj (b := 32)).1 (schar_inj (b := 9)).1)
  have hskip : skip isBlank s = (schar b, s.after 1) := by
    rw [skip.eq_def, dif_neg (by simp [hget, hblank']), hget]
  have hstart : lexStart s = (schar b, s.begun) := by
    simp only [lexStart, hskip]
    exact if_neg fun heq => hhash (schar_inj.1 heq)
  have hstarts : ¬StartsMacro s := by
    rw [StartsMacro, hstart]
    exact fun heq => hdollar (schar_inj.1 heq.1)
  rw [yylex_of_token hstarts, hstart]

end Ahead

/-- The lexer before a text. -/
def lexOn (text : String) : Lex :=
  ((Globals.initial []).start ⟨CStr.lit "stdin", asciiBytes text, 1, 0⟩).lex

theorem lexOn_bounded (text : String) : (lexOn text).Bounded := ⟨Nat.zero_lt_succ _, nofun⟩

end Ifconfigd.Parse
