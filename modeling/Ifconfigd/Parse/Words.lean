import Ifconfigd.Parse.Ahead
import Ifconfigd.Parse.Macro
import Ifconfigd.Parse.Values

/-!
# Unquoted words

A word that begins with digits is first read as a number. When a character follows that
does not end a number, the digits are pushed back and read again by the loop over words.
A digit that does not fit the pushback buffer is lost, and a `/` after the digits ends the
number although it could go on with the word.
-/

namespace Ifconfigd.Parse

open CLib

/-! ## Characters -/

theorem forall_byte {P : Byte → Prop} (h : ∀ n < 256, P (UInt8.ofNat n)) (b : Byte) : P b := by
  have hb := h b.toNat b.toNat_lt
  rwa [UInt8.ofNat_toNat] at hb

/-- A character that is not in words, however it is read. -/
theorem allowedInString_schar {c : Byte} (h : allowedInString (uchar c) = false) :
    allowedInString (schar c) = false ∧ c ≠ 255 ∧ c ≠ 92 := by
  have hall : ∀ n < 256, allowedInString (uchar (UInt8.ofNat n)) = false →
      allowedInString (schar (UInt8.ofNat n)) = false ∧ UInt8.ofNat n ≠ 255 ∧
        UInt8.ofNat n ≠ 92 := by decide +kernel
  exact forall_byte (P := fun c => allowedInString (uchar c) = false →
    allowedInString (schar c) = false ∧ c ≠ 255 ∧ c ≠ 92) hall c h

theorem allowedToEndNumber_schar {c : Byte} (h : c ≠ 255) :
    allowedToEndNumber (schar c) = allowedToEndNumber (uchar c) := by
  have hall : ∀ n < 256, UInt8.ofNat n ≠ 255 →
      allowedToEndNumber (schar (UInt8.ofNat n)) = allowedToEndNumber (uchar (UInt8.ofNat n)) := by
    decide +kernel
  exact forall_byte (P := fun c => c ≠ 255 →
    allowedToEndNumber (schar c) = allowedToEndNumber (uchar c)) hall c h

/-- Of the characters in words only the slash ends a number. -/
theorem ends_number_iff {c : Byte} (hascii : c < 128) (hallowed : allowedInString (schar c) = true) :
    allowedToEndNumber (schar c) = true ↔ c = 47 := by
  have hall : ∀ n < 256, UInt8.ofNat n < 128 → allowedInString (schar (UInt8.ofNat n)) = true →
      (allowedToEndNumber (schar (UInt8.ofNat n)) = true ↔ UInt8.ofNat n = 47) := by
    decide +kernel
  exact forall_byte (P := fun c => c < 128 → allowedInString (schar c) = true →
    (allowedToEndNumber (schar c) = true ↔ c = 47)) hall c hascii hallowed

/-- The character `x` was read for the byte `t`. -/
def Reads (t : Byte) (x : Int) : Prop := x = schar t ∨ x = uchar t

theorem Reads.toByte_eq {t : Byte} {x : Int} (h : Reads t x) : toByte x = t := by
  rcases h with rfl | rfl
  · exact toByte_schar t
  · exact toByte_uchar t

theorem Reads.ne_eof {t : Byte} {x : Int} (h : Reads t x) (ht : t ≠ 255) : x ≠ eof := by
  rcases h with rfl | rfl
  · intro heq
    refine ht ?_
    rw [← toByte_schar t, heq]
    decide
  · exact uchar_ne_eof t

/-! ## The loop over a word -/

/-- A character the loop with the test `p` reads. -/
def GoesOn (p : Int → Bool) (b : Byte) : Prop := b < 128 ∧ b ≠ 92 ∧ p (schar b) = true

instance (p : Int → Bool) (b : Byte) : Decidable (GoesOn p b) :=
  inferInstanceAs (Decidable (_ ∧ _))

/-- A character the loop with the test `p` stops at. -/
def StopsAt (p : Int → Bool) (t : Byte) : Prop :=
  t ≠ 92 ∧ t ≠ 255 ∧ p (schar t) = false ∧ p (uchar t) = false

section Scan

variable {s : Lex} {p : Int → Bool} {t : Byte} {v rest : List Byte}

/-- The loop over a word whose first character `b` was read already. -/
theorem scan_ahead (acc : List Byte) (b : Byte) (h : s.Bounded) (hs : s.ahead = v ++ t :: rest)
    (hv : ∀ x ∈ v, GoesOn p x) (ht : StopsAt p t) :
    if acc.length + v.length + 1 < bufSize then
      ∃ x, Reads t x ∧ scan p acc (schar b) s =
        (.done (acc ++ b :: v) (lungetc x (s.after (v.length + 1))), x)
    else ∃ k x, scan p acc (schar b) s = (.tooLong (s.after k), x) := by
  induction v generalizing s acc b with
  | nil =>
      split
      · next hlen =>
          obtain ⟨hafter, hx⟩ := @lgetc_ahead s t rest 0 h hs (.inl ht.1)
          have hp : p (lgetc 0 s).1 = false := by
            rcases hx with hx | hx <;> rw [hx]
            · exact ht.2.2.1
            · exact ht.2.2.2
          refine ⟨(lgetc 0 s).1, hx, ?_⟩
          rw [scan.eq_def, if_neg (by simpa using hlen), dif_neg (by simp [hp]), toByte_schar, hafter]
          rfl
      · next hlen =>
          refine ⟨0, schar b, ?_⟩
          rw [scan.eq_def, if_pos (by simpa using hlen), after_zero]
  | cons x v ih =>
      obtain ⟨hx, hv⟩ := List.forall_mem_cons.1 hv
      have hget := lgetc_eq 0 h hs hx.1 (.inl hx.2.1)
      by_cases hfull : acc.length + 1 ≥ bufSize
      · rw [if_neg (by simp only [List.length_cons]; omega)]
        refine ⟨0, schar b, ?_⟩
        rw [scan.eq_def, if_pos hfull, after_zero]
      · have hscan : scan p acc (schar b) s = scan p (acc ++ [b]) (schar x) (s.after 1) := by
          rw [scan.eq_def, if_neg hfull, dif_pos (by rw [hget]; exact ⟨schar_ne_eof hx.1, hx.2.2⟩),
            hget, toByte_schar]
        have hmore := ih (acc ++ [b]) x (h.after 1) (ahead_after_one h hs) hv
        simp only [List.length_append, List.length_singleton, List.append_assoc,
          List.singleton_append, after_after h, ← hscan] at hmore
        simp only [List.length_cons]
        rw [show acc.length + (v.length + 1) + 1 = acc.length + 1 + v.length + 1 by omega,
          show v.length + 1 + 1 = 1 + (v.length + 1) by omega]
        split at hmore
        · next hlen => rwa [if_pos hlen]
        · next hlen =>
            rw [if_neg hlen]
            obtain ⟨k, y, hk⟩ := hmore
            exact ⟨1 + k, y, hk⟩

end Scan

/-! ## Pushing digits back -/

section Unread

variable {s : Lex}

/-- Outside a macro the last digits are pushed back, as many as fit. -/
theorem unread_of_none {bs : List Byte} (hbs : ∀ b ∈ bs, b < 128) (hbuf : s.parsebuf = none) :
    bs.foldl (fun s b => lungetc (schar b) s) s =
      { s with pushback := (bs.take (maxPushback - 1 - s.pushback.length)).reverse ++
        s.pushback } := by
  induction bs generalizing s with
  | nil => simp
  | cons b bs ih =>
      obtain ⟨hb, hbs⟩ := List.forall_mem_cons.1 hbs
      rw [List.foldl_cons]
      by_cases hroom : s.pushback.length < maxPushback - 1
      · obtain ⟨k, hk⟩ := Nat.exists_eq_add_of_lt hroom
        have hmore := @ih { s with pushback := b :: s.pushback } hbs hbuf
        rw [lungetc_of_none hbuf (schar_ne_eof hb) hroom, toByte_schar, hmore,
          show maxPushback - 1 - s.pushback.length = k + 1 by omega, List.take_succ_cons,
          List.reverse_cons, List.append_assoc, List.singleton_append]
        simp only [List.length_cons]
        rw [show maxPushback - 1 - (s.pushback.length + 1) = k by omega]
      · have hfull : lungetc (schar b) s = s := by
          simp only [lungetc, if_neg (schar_ne_eof hb), hbuf, lungetc.push, if_neg hroom]
        rw [hfull, ih hbs hbuf, show maxPushback - 1 - s.pushback.length = 0 by omega]
        simp

/-- In the macro text every digit is given back. -/
theorem unread_after {bs : List Byte} (hbs : ∀ b ∈ bs, b < 128) (h : s.Bounded) {k : Nat}
    (hk : k + bs.length ≤ s.macroRest.length) :
    bs.foldl (fun s b => lungetc (schar b) s) (s.after (k + bs.length)) = s.after k := by
  induction bs with
  | nil => rfl
  | cons b bs ih =>
      obtain ⟨hb, hbs⟩ := List.forall_mem_cons.1 hbs
      rw [List.length_cons] at hk ⊢
      rw [List.foldl_cons, ← Nat.add_assoc, lungetc_after_of_le h (schar_ne_eof hb) (by omega)]
      exact ih hbs (by omega)

/-- How many of `n` digits are lost when they are pushed back with the character after
them. -/
def lostOf (s : Lex) (n : Nat) : Nat :=
  if n + 1 ≤ s.macroRest.length then 0
  else s.pushback.length - (n + 1 - s.macroRest.length) + (n + 1) - (maxPushback - 1)

theorem unread_ahead {v more : List Byte} {t : Byte} {x : Int} (h : s.Bounded)
    (hs : s.ahead = v ++ t :: more) (hv : ∀ b ∈ v, b < 128) (hx : Reads t x) (ht : t ≠ 255) :
    ∃ s', v.reverse.foldl (fun s b => lungetc (schar b) s)
        (lungetc x (s.after (v.length + 1))) = s' ∧
      s'.Bounded ∧ s'.ahead = v.drop (lostOf s v.length) ++ t :: more ∧ s'.prev = s.prev ∧
      s'.diags = s.diags := by
  refine ⟨_, rfl, ?_⟩
  have hne := hx.ne_eof ht
  have hv' : ∀ b ∈ v.reverse, b < 128 := fun b hb => hv b (List.mem_reverse.1 hb)
  by_cases hin : v.length + 1 ≤ s.macroRest.length
  · have hlen : v.reverse.length = v.length := List.length_reverse
    have hback := @unread_after s v.reverse hv' h 0 (by rw [hlen]; omega)
    rw [hlen, Nat.zero_add, after_zero] at hback
    rw [lungetc_after_of_le h hne hin, hback, lostOf, if_pos hin]
    exact ⟨h, hs, rfl, rfl⟩
  · have hafter := after_of_lt (Nat.lt_of_not_le hin)
    have hnone : (s.after (v.length + 1)).parsebuf = none := by
      rw [hafter]
      rfl
    have hback : (s.after (v.length + 1)).pushback =
        s.pushback.drop (v.length + 1 - s.macroRest.length) := by
      rw [hafter]
      rfl
    have hahead := ahead_after h (v.length + 1)
    rw [hs, ahead_of_none hnone, List.drop_append, List.drop_eq_nil_of_le (by omega),
      show v.length + 1 - v.length = 1 by omega, List.nil_append, List.drop_one,
      List.tail_cons] at hahead
    have hpush := h.pushback
    have hroom : (s.after (v.length + 1)).pushback.length < maxPushback - 1 := by
      rw [hback, List.length_drop]
      have : 0 < maxPushback - 1 := by decide
      omega
    have hpushed := lungetc_of_none hnone hne hroom
    rw [hx.toByte_eq] at hpushed
    have hdigits := @unread_of_none { s.after (v.length + 1) with
      pushback := t :: (s.after (v.length + 1)).pushback } v.reverse hv' hnone
    simp only [List.length_cons, List.reverse_take, List.reverse_reverse,
      List.length_reverse] at hdigits
    have hlost : v.length - (maxPushback - 1 - ((s.after (v.length + 1)).pushback.length + 1)) =
        lostOf s v.length := by
      rw [lostOf, if_neg hin, hback, List.length_drop]
      rw [hback, List.length_drop] at hroom
      omega
    rw [hlost] at hdigits
    rw [hpushed, hdigits]
    refine ⟨⟨?_, fun _ _ hsome => by simp [hnone] at hsome⟩, ?_, prev_after s _, diags_after s _⟩
    · simp only [List.length_append, List.length_drop, List.length_cons]
      omega
    · refine (ahead_of_none ?_).trans ?_
      · exact hnone
      change v.drop _ ++ t :: (s.after (v.length + 1)).pushback ++ (s.after (v.length + 1)).file.rest = _
      rw [List.append_assoc, List.cons_append, hahead]

end Unread

/-! ## The results -/

/-- The token is that of the word `w`, and `more` is ahead. -/
def ReadAs (w more : List Byte) (s : Lex) (r : Token × Lex) : Prop :=
  ∃ v : CStr, v.bytes = w ∧ r.1 = lookup v ∧ (r.1 = .string → r.2.val = .string v) ∧
    r.2.ahead = more ∧ r.2.prev = s.prev

/-- An error was reported, with the message `m`. -/
def Reports (m : Message) (s : Lex) (r : Token × Lex) : Prop :=
  r.1 = .error ∧ ∃ file lineno, r.2.diags = ⟨file, lineno, m⟩ :: s.diags

section Results

variable {s : Lex}

theorem lgetc_diags (s : Lex) : (lgetc 0 s).2.diags = s.diags := by
  simp only [lgetc, lgetcInput, getcJoined]
  grind

theorem lungetc_diags (c : Int) (s : Lex) : (lungetc c s).diags = s.diags := by
  simp only [lungetc, lungetc.push]
  grind

theorem skip_diags (p : Int → Bool) (s : Lex) : (skip p s).2.diags = s.diags := by
  fun_induction skip p s with
  | case1 s hc ih => rw [ih, lgetc_diags]
  | case2 s hc => exact lgetc_diags s

theorem findeol_diags (s : Lex) : (findeol s).diags = s.diags := by
  have hskip := skip_diags (· ≠ ch '\n') { s with parsebuf := none }
  simp only [findeol]
  split <;> exact hskip

theorem lexError_reports {s' : Lex} (m : Message) (h : s'.diags = s.diags) :
    Reports m s (lexError m s') := by
  refine ⟨rfl, s'.file.name, s'.lineno, ?_⟩
  change (findeol (yyerror m s')).diags = _
  rw [findeol_diags, ← h]
  rfl

theorem wordToken_readAs {w more : List Byte} {s' : Lex} (hw : 0 ∉ w) (hmore : s'.ahead = more)
    (hprev : s'.prev = s.prev) : ReadAs w more s (wordToken w s') := by
  refine ⟨CStr.read w, CStr.read_of_noNul hw, ?_⟩
  rw [wordToken]
  split
  · next hlookup => exact ⟨hlookup.symm, fun _ => rfl, hmore, hprev⟩
  · next hne => exact ⟨rfl, fun hstring => absurd hstring hne, hmore, hprev⟩

theorem GoesOn.ne_nul {b : Byte} (h : GoesOn allowedInString b) : b ≠ 0 := by
  rintro rfl
  exact absurd h.2.2 (by decide)

/-- The second loop, over a word that begins with `b`. -/
theorem lexWord_ahead {b c : Byte} {v rest : List Byte}
    (hb : isalnum (schar b) = true ∨ b = 58 ∨ b = 95) (hgo : GoesOn allowedInString b)
    (h : s.Bounded) (hs : s.ahead = v ++ c :: rest) (hv : ∀ x ∈ v, GoesOn allowedInString x)
    (hc : StopsAt allowedInString c) :
    if v.length + 1 < bufSize then ReadAs (b :: v) (c :: rest) s (lexWord (schar b) s)
    else Reports .stringTooLong s (lexWord (schar b) s) := by
  have hfirst : (isalnum (schar b) || schar b = ch ':' || schar b = ch '_') = true := by
    rcases hb with hb | rfl | rfl
    · simp [hb]
    · decide
    · decide
  have hscan := scan_ahead [] b h hs hv hc
  rw [List.length_nil, Nat.zero_add] at hscan
  rw [lexWord, if_pos hfirst]
  split
  · next hlen =>
      rw [if_pos hlen] at hscan
      obtain ⟨x, hx, hscan⟩ := hscan
      have hahead := ahead_after h v.length
      rw [hs, List.drop_left] at hahead
      obtain ⟨hback, -, hprev⟩ := lungetc_ahead (h.after v.length) hahead hx.toByte_eq
        (hx.ne_eof hc.2.1)
      rw [after_after h] at hback hprev
      rw [hscan]
      refine wordToken_readAs ?_ hback (hprev.trans (prev_after s _))
      simp only [List.mem_cons, not_or]
      exact ⟨hgo.ne_nul.symm, fun hzero => (hv 0 hzero).ne_nul rfl⟩
  · next hlen =>
      rw [if_neg hlen] at hscan
      obtain ⟨k, x, hscan⟩ := hscan
      rw [hscan]
      exact lexError_reports _ (diags_after s k)

end Results

/-! ## Numbers and words -/

theorem stopsAt_of_allowed {c : Byte} (h : allowedInString (uchar c) = false) :
    StopsAt allowedInString c := by
  obtain ⟨hschar, h255, h92⟩ := allowedInString_schar h
  exact ⟨h92, h255, hschar, h⟩

theorem allowed_of_isdigit {x : Int} (h : isdigit x = true) : allowedInString x = true := by
  have halnum : isalnum x = true := by
    simp only [isdigit, isalnum, isClass, Bool.and_eq_true, Bool.or_eq_true,
      decide_eq_true_eq] at h ⊢
    exact ⟨h.1, .inl (.inl h.2)⟩
  simp [allowedInString, halnum]

/-- A character that ends a word ends a number. -/
theorem StopsAt.isdigit {c : Byte} (h : StopsAt allowedInString c) : StopsAt isdigit c := by
  refine ⟨h.1, h.2.1, ?_, ?_⟩
  · rw [Bool.eq_false_iff]
    exact fun hd => Bool.eq_false_iff.1 h.2.2.1 (allowed_of_isdigit hd)
  · rw [Bool.eq_false_iff]
    exact fun hd => Bool.eq_false_iff.1 h.2.2.2 (allowed_of_isdigit hd)

/-- So does a character of the word that is no digit. -/
theorem GoesOn.stopsAt {b : Byte} (h : GoesOn allowedInString b) (hd : isDigitByte b = false) :
    StopsAt Parse.isdigit b := by
  have hdigit : Parse.isdigit (schar b) = false := by rw [isdigit_schar h.1, hd]
  refine ⟨h.2.1, ?_, hdigit, by rwa [uchar_of_lt h.1]⟩
  rintro rfl
  exact absurd h.1 (by decide)

theorem digit_ne_minus {b : Byte} (h : isDigitByte b = true) : b ≠ 45 := by
  rintro rfl
  exact absurd h (by decide)

theorem Reads.ends_number {t : Byte} {x : Int} (h : Reads t x) (ht : t ≠ 255) :
    allowedToEndNumber x = allowedToEndNumber (schar t) := by
  rcases h with rfl | rfl
  · rfl
  · exact (allowedToEndNumber_schar ht).symm

section Numbers

variable {s : Lex} {b t : Byte} {v more : List Byte} (h : s.Bounded)
  (hs : s.ahead = v ++ t :: more) (hv : ∀ x ∈ v, GoesOn isdigit x) (ht : StopsAt isdigit t)

include h hs hv ht

theorem lexNumber_of_long (hlen : bufSize ≤ v.length + 1) :
    Reports .stringTooLong s (lexNumber (schar b) s) := by
  have hscan := scan_ahead [] b h hs hv ht
  rw [List.length_nil, Nat.zero_add, if_neg (Nat.not_lt.2 hlen)] at hscan
  obtain ⟨k, x, hscan⟩ := hscan
  simp only [lexNumber, hscan]
  exact lexError_reports _ (diags_after s k)

variable (hb : isDigitByte b = true) (hlen : v.length + 1 < bufSize)

include hb hlen

/-- The loop over the digits, and what is asked about the character after them. -/
theorem exists_scan_digits :
    ∃ x, Reads t x ∧ scan isdigit [] (schar b) s =
        (.done (b :: v) (lungetc x (s.after (v.length + 1))), x) ∧ b :: v ≠ [45] ∧
      (x = eof || allowedToEndNumber x) = allowedToEndNumber (schar t) := by
  have hscan := scan_ahead [] b h hs hv ht
  rw [List.length_nil, Nat.zero_add, if_pos hlen] at hscan
  obtain ⟨x, hx, hscan⟩ := hscan
  refine ⟨x, hx, hscan, ?_, ?_⟩
  · rintro ⟨⟩
    exact digit_ne_minus hb rfl
  · rw [hx.ends_number ht.2.1]
    simp [hx.ne_eof ht.2.1]

/-- A number before a character that ends it. -/
theorem lexNumber_of_end (hend : allowedToEndNumber (schar t) = true) :
    (lexNumber (schar b) s).1 = .number ∨
      ∃ text e, Reports (.invalidNumber text e) s (lexNumber (schar b) s) := by
  obtain ⟨x, hx, hscan, hminus, hx'⟩ := exists_scan_digits h hs hv ht hb hlen
  have hdiags : (lungetc x (s.after (v.length + 1))).diags = s.diags :=
    (lungetc_diags x _).trans (diags_after s _)
  simp only [lexNumber, hscan, if_neg hminus, hx', hend, if_true]
  split
  · exact .inl rfl
  · exact .inr ⟨_, _, lexError_reports _ hdiags⟩

/-- Digits before a character that does not end a number: those that fit the pushback
buffer are read again. -/
theorem lexNumber_of_word (hend : allowedToEndNumber (schar t) = false) :
    ∃ s', lexNumber (schar b) s = lexWord (schar b) s' ∧ s'.Bounded ∧
      s'.ahead = v.drop (lostOf s v.length) ++ t :: more ∧ s'.prev = s.prev ∧
      s'.diags = s.diags := by
  obtain ⟨x, hx, hscan, hminus, hx'⟩ := exists_scan_digits h hs hv ht hb hlen
  obtain ⟨s', hs', hrest⟩ := unread_ahead h hs (fun y hy => (hv y hy).1) hx ht.2.1
  refine ⟨s', ?_, hrest⟩
  have hne : schar b ≠ ch '-' := fun heq => digit_ne_minus hb (schar_inj.1 heq)
  simp only [lexNumber, hscan, if_neg hminus, hx', hend, lexNodigits, List.tail_cons, hs',
    List.headD_cons, if_neg hne]
  rfl

end Numbers

/-! ## Words -/

/-- A text that is to be read as one word. -/
structure Word (w : List Byte) : Prop where
  first : ∃ b u, w = b :: u ∧ (isalnum (schar b) = true ∨ b = 58 ∨ b = 95)
  chars : ∀ b ∈ w, GoesOn allowedInString b

/-- The digits at the beginning of the word are followed by a slash in it. -/
def SlashAfterDigits (w : List Byte) : Prop := 0 < digitRun w ∧ w[digitRun w]? = some 47

/-- How many digits of the word are lost in the pushback buffer: none if the digits and
the character after them are in the macro text; otherwise those that do not fit it, with
what is left in it then. -/
def lostDigits (s : Lex) (w : List Byte) : Nat :=
  if digitRun w + 1 ≤ s.macroRest.length then 0
  else s.pushback.length - (digitRun w + 1 - s.macroRest.length) + digitRun w - (maxPushback - 1)

theorem lostOf_begun {s : Lex} (h : s.Bounded) {w : List Byte} (hw : 0 < digitRun w) :
    lostOf s.begun (digitRun w - 1) = lostDigits s w := by
  have hrest : s.begun.macroRest = (s.after 1).macroRest := rfl
  have hpush : s.begun.pushback = (s.after 1).pushback := rfl
  rw [lostOf, lostDigits, hrest, hpush]
  by_cases hm : 1 ≤ s.macroRest.length
  · rw [macroRest_after_of_le h hm, (input_after_of_le hm).1, List.length_drop]
    split
    · rw [if_pos (by omega)]
    · rw [if_neg (by omega)]
      omega
  · have hlt : s.macroRest.length < 1 := Nat.lt_of_not_le hm
    have hdrop : (s.after 1).pushback = s.pushback.drop (1 - s.macroRest.length) := by
      rw [after_of_lt hlt]
      rfl
    rw [macroRest_after_of_lt hlt, hdrop, List.length_drop, List.length_nil, if_neg (by omega),
      if_neg (by omega)]
    omega

theorem lostDigits_of_zero {s : Lex} (h : s.Bounded) {w : List Byte} (hw : digitRun w = 0) :
    lostDigits s w = 0 := by
  have hpush := h.pushback
  have hmax : maxPushback = 128 := rfl
  rw [lostDigits, hw]
  split
  · rfl
  · omega

theorem lostOf_le {s : Lex} (h : s.Bounded) (n : Nat) : lostOf s n ≤ n := by
  have hpush := h.pushback
  have hmax : maxPushback = 128 := rfl
  rw [lostOf]
  split
  · exact Nat.zero_le n
  · omega

/-- A first character of words: `yylex` goes on with it. -/
theorem lexToken_of_first {b : Byte} (hb : isalnum (schar b) = true ∨ b = 58 ∨ b = 95)
    (hgo : GoesOn allowedInString b) (s : Lex) :
    Begins b ∧ lexToken (schar b) s =
      if isDigitByte b then lexNumber (schar b) s else lexWord (schar b) s := by
  have hall : ∀ n < 256, (isalnum (schar (UInt8.ofNat n)) = true ∨ UInt8.ofNat n = 58 ∨
      UInt8.ofNat n = 95) → UInt8.ofNat n < 128 → Begins (UInt8.ofNat n) ∧
        schar (UInt8.ofNat n) ≠ ch '\'' ∧ schar (UInt8.ofNat n) ≠ ch '"' ∧
        schar (UInt8.ofNat n) ≠ ch '-' := by decide +kernel
  obtain ⟨hbegins, hsingle, hdouble, hminus⟩ := forall_byte (P := fun b =>
    (isalnum (schar b) = true ∨ b = 58 ∨ b = 95) → b < 128 → Begins b ∧
      schar b ≠ ch '\'' ∧ schar b ≠ ch '"' ∧ schar b ≠ ch '-') hall b hb hgo.1
  refine ⟨hbegins, ?_⟩
  simp [lexToken, hsingle, hdouble, hminus, isdigit_schar hgo.1]

/-- No keyword begins with a digit. -/
theorem lookup_of_digit {v : CStr} {b : Byte} {u : List Byte} (hv : v.bytes = b :: u)
    (hb : isDigitByte b = true) : lookup v = .string := by
  rw [lookup]
  cases hfind : keywords.find? fun k => k.1 = v with
  | none => rfl
  | some k =>
      have hall : ∀ k ∈ keywords, ∀ b ∈ k.1.bytes.head?, isDigitByte b = false := by
        decide +kernel
      have hk : k.1 = v := by simpa using List.find?_some hfind
      have hfalse := hall k (List.mem_of_find?_eq_some hfind) b (by rw [hk, hv]; rfl)
      rw [hb] at hfalse
      cases hfalse

/-- The word was read as it is, or it was reported as too long. -/
def Unaltered (w more : List Byte) (s : Lex) (r : Token × Lex) : Prop :=
  ReadAs w more s r ∨ Reports .stringTooLong s r

section Altered

variable {w more : List Byte} {s : Lex} {r : Token × Lex}

theorem unaltered_congr {s' : Lex} (hprev : s'.prev = s.prev) (hdiags : s'.diags = s.diags) :
    Unaltered w more s' r ↔ Unaltered w more s r := by
  simp only [Unaltered, ReadAs, Reports, hprev, hdiags]

theorem not_unaltered_of_number (h : r.1 = .number) : ¬Unaltered w more s r := by
  rintro (⟨v, -, hlookup, -⟩ | ⟨herror, -⟩)
  · exact lookup_ne_number v (hlookup.symm.trans h)
  · cases herror.symm.trans h

theorem not_unaltered_of_reports {m : Message} {b : Byte} {u : List Byte}
    (hb : isDigitByte b = true) (h : Reports m s r) (hm : m ≠ .stringTooLong) :
    ¬Unaltered (b :: u) more s r := by
  obtain ⟨herror, file, lineno, hdiags⟩ := h
  rintro (⟨v, hv, hlookup, -⟩ | ⟨-, file', lineno', hdiags'⟩)
  · cases herror.symm.trans (hlookup.trans (lookup_of_digit hv hb))
  · rw [hdiags] at hdiags'
    cases hdiags'
    exact hm rfl

/-- A word that begins with a digit is told from any other by its value. -/
theorem unaltered_of_readAs {b : Byte} {u more' : List Byte} (hb : isDigitByte b = true)
    (h : ReadAs (b :: u) more' s r) (hw : Unaltered w more s r) : w = b :: u := by
  obtain ⟨v, hv, hlookup, hval, -⟩ := h
  have hstring := hlookup.trans (lookup_of_digit hv hb)
  rcases hw with ⟨v', hv', -, hval', -⟩ | ⟨herror, -⟩
  · have heq := (hval hstring).symm.trans (hval' hstring)
    cases heq
    exact hv'.symm.trans hv
  · cases herror.symm.trans hstring

end Altered

/-- A word with digits at its beginning: the digits, then the rest of it. -/
theorem Word.split {b c : Byte} {u rest : List Byte} (hw : Word (b :: u)) (hb : isDigitByte b = true)
    (hc : StopsAt allowedInString c) :
    ∃ v z t more, u = v ++ z ∧ z ++ c :: rest = t :: more ∧ v.length + 1 = digitRun (b :: u) ∧
      (∀ x ∈ v, GoesOn isdigit x) ∧ StopsAt isdigit t ∧
      (digitRun (b :: u) = (b :: u).length ∧ t = c ∨
        GoesOn allowedInString t ∧ (b :: u)[digitRun (b :: u)]? = some t) := by
  have hu : u = u.takeWhile isDigitByte ++ u.dropWhile isDigitByte :=
    List.takeWhile_append_dropWhile.symm
  have hchars : ∀ x ∈ u, GoesOn allowedInString x := (List.forall_mem_cons.1 hw.chars).2
  have hrun : (u.takeWhile isDigitByte).length + 1 = digitRun (b :: u) := by
    rw [digitRun_cons, if_pos hb, digitRun]
  have hdigits : ∀ x ∈ u.takeWhile isDigitByte, GoesOn isdigit x := by
    intro x hx
    obtain ⟨hascii, hslash, -⟩ := hchars x (List.takeWhile_subset _ hx)
    refine ⟨hascii, hslash, ?_⟩
    rw [isdigit_schar hascii]
    exact List.mem_takeWhile_imp hx
  cases hz : u.dropWhile isDigitByte with
  | nil =>
      rw [hz] at hu
      refine ⟨_, _, c, rest, hu, rfl, hrun, hdigits, hc.isdigit, .inl ⟨?_, rfl⟩⟩
      rw [← hrun]
      nth_rewrite 2 [hu]
      simp
  | cons t z =>
      rw [hz] at hu
      have ht : GoesOn allowedInString t := hchars t (by rw [hu]; simp)
      have hdigit : isDigitByte t = false := by
        have hnot := @List.head_dropWhile_not _ isDigitByte u (by rw [hz]; exact List.cons_ne_nil _ _)
        simpa [hz] using hnot
      refine ⟨_, _, t, z ++ c :: rest, hu, rfl, hrun, hdigits, ht.stopsAt hdigit, .inr ⟨ht, ?_⟩⟩
      rw [← hrun, List.getElem?_cons_succ]
      nth_rewrite 1 [hu]
      simp

/-- The digits are taken for a number exactly if a slash of the word follows them. -/
theorem ends_number_iff_slash {b c t : Byte} {u : List Byte} (hb : isDigitByte b = true)
    (hc : StopsAt allowedInString c)
    (hnumber : ¬(digitRun (b :: u) = (b :: u).length ∧ allowedToEndNumber (uchar c) = true))
    (hnext : digitRun (b :: u) = (b :: u).length ∧ t = c ∨
      GoesOn allowedInString t ∧ (b :: u)[digitRun (b :: u)]? = some t) :
    allowedToEndNumber (schar t) = true ↔ SlashAfterDigits (b :: u) := by
  have hpos : 0 < digitRun (b :: u) := by
    rw [digitRun_cons, if_pos hb]
    exact Nat.succ_pos _
  rw [SlashAfterDigits, and_iff_right hpos]
  rcases hnext with ⟨hall, rfl⟩ | ⟨ht, hget⟩
  · rw [allowedToEndNumber_schar hc.2.1, hall, List.getElem?_eq_none (Nat.le_refl _)]
    exact ⟨fun hend => absurd ⟨hall, hend⟩ hnumber, nofun⟩
  · rw [ends_number_iff ht.1 ht.2.2, hget, Option.some_inj]

/-- The word that is read again, with `k` of its digits lost. -/
theorem digits_unaltered_iff {b c : Byte} {v z rest : List Byte} {s : Lex} {k : Nat}
    (hb : isalnum (schar b) = true ∨ b = 58 ∨ b = 95) (hgo : GoesOn allowedInString b)
    (hdigit : isDigitByte b = true) (h : s.Bounded) (hs : s.ahead = v.drop k ++ (z ++ c :: rest))
    (hchars : ∀ x ∈ v ++ z, GoesOn allowedInString x) (hc : StopsAt allowedInString c)
    (hk : k ≤ v.length) :
    Unaltered (b :: (v ++ z)) (c :: rest) s (lexWord (schar b) s) ↔
      k = 0 ∨ bufSize + k ≤ (b :: (v ++ z)).length := by
  rw [← List.append_assoc] at hs
  have hdrop : ∀ x ∈ v.drop k ++ z, GoesOn allowedInString x := by
    intro x hx
    refine hchars x ?_
    rw [List.mem_append] at hx ⊢
    exact hx.imp_left List.mem_of_mem_drop
  have hword := lexWord_ahead hb hgo h hs hdrop hc
  have hlen : (v.drop k ++ z).length + k = (v ++ z).length := by
    rw [List.length_append, List.length_append, List.length_drop]
    omega
  rw [List.length_cons]
  split at hword
  · next hshort =>
      rw [or_iff_left (show ¬bufSize + k ≤ (v ++ z).length + 1 by omega)]
      constructor
      · intro hread
        have heq := unaltered_of_readAs hdigit hword hread
        have hsame := congrArg List.length heq
        rw [List.length_cons, List.length_cons] at hsame
        omega
      · rintro rfl
        exact .inl hword
  · next hlong => exact iff_of_true (.inr hword) (.inr (by omega))

/-- Unquoted words are read as they are, or reported as too long, unless a slash follows
the digits at their beginning or some of these digits are lost. -/
theorem word_unaltered_iff {s : Lex} {w rest : List Byte} {c : Byte} (h : s.Bounded) (hw : Word w)
    (hs : s.ahead = w ++ c :: rest) (hc : allowedInString (uchar c) = false)
    (hnumber : ¬(digitRun w = w.length ∧ allowedToEndNumber (uchar c) = true)) :
    Unaltered w (c :: rest) s (yylex s) ↔
      bufSize ≤ digitRun w ∨ ¬SlashAfterDigits w ∧
        (lostDigits s w = 0 ∨ bufSize + lostDigits s w ≤ w.length) := by
  obtain ⟨b, u, rfl, hb⟩ := hw.first
  rw [List.cons_append] at hs
  obtain ⟨hgo, hchars⟩ := List.forall_mem_cons.1 hw.chars
  have hstop := stopsAt_of_allowed hc
  obtain ⟨hbegins, htoken⟩ := lexToken_of_first hb hgo s.begun
  rw [yylex_of_ahead h hs hbegins, htoken,
    ← unaltered_congr (prev_begun s) (diags_after s 1 : s.begun.diags = s.diags)]
  by_cases hdigit : isDigitByte b = true
  · rw [if_pos hdigit]
    obtain ⟨v, z, t, more, rfl, hmore, hrun, hv, ht, hnext⟩ :=
      @Word.split b c u rest hw hdigit hstop
    have hahead : s.begun.ahead = v ++ t :: more := by
      rw [ahead_begun h hs, List.append_assoc, hmore]
    have hlost : lostOf s.begun v.length = lostDigits s (b :: (v ++ z)) := by
      rw [← lostOf_begun h (hrun ▸ Nat.succ_pos _), ← hrun, Nat.add_sub_cancel]
    rw [← ends_number_iff_slash hdigit hstop hnumber hnext, ← hlost, ← hrun]
    by_cases hlong : bufSize ≤ v.length + 1
    · exact iff_of_true (.inr (lexNumber_of_long h.begun hahead hv ht hlong)) (.inl hlong)
    rw [or_iff_right hlong]
    have hlen := Nat.lt_of_not_le hlong
    cases hends : allowedToEndNumber (schar t) with
    | true =>
        refine iff_of_false ?_ (fun hcond => hcond.1 rfl)
        rcases lexNumber_of_end h.begun hahead hv ht hdigit hlen hends with hnum | ⟨text, e, hrep⟩
        · exact not_unaltered_of_number hnum
        · exact not_unaltered_of_reports hdigit hrep nofun
    | false =>
        obtain ⟨s', heq, hbounded, hahead', hprev, hdiags⟩ :=
          lexNumber_of_word h.begun hahead hv ht hdigit hlen hends
        have hword := digits_unaltered_iff (z := z) hb hgo hdigit hbounded (by
          rw [hahead', ← hmore]) hchars hstop (lostOf_le h.begun v.length)
        rw [unaltered_congr hprev hdiags, ← heq] at hword
        rw [hword]
        simp
  · have hrun : digitRun (b :: u) = 0 := by rw [digitRun_cons, if_neg hdigit]
    have hword := lexWord_ahead hb hgo h.begun (ahead_begun h hs) hchars hstop
    rw [if_neg hdigit]
    refine iff_of_true ?_ (.inr ⟨fun hslash => ?_, .inl (lostDigits_of_zero h hrun)⟩)
    · split at hword
      · exact .inl hword
      · exact .inr hword
    · exact Nat.lt_irrefl 0 (hrun ▸ hslash.1)

/-- An address begins with digits and is read as the word it is. -/
theorem word_unaltered_address :
    Unaltered (asciiBytes "10.0.0.1") (asciiBytes " up") (lexOn "10.0.0.1 up")
      (yylex (lexOn "10.0.0.1 up")) := by
  have hword : Word (asciiBytes "10.0.0.1") :=
    ⟨⟨49, asciiBytes "0.0.0.1", by decide, by decide⟩, by decide +kernel⟩
  refine (@word_unaltered_iff (lexOn "10.0.0.1 up") (asciiBytes "10.0.0.1") (asciiBytes "up") 32
    (lexOn_bounded _) hword (by decide) (by decide) (by decide)).2 (.inr ⟨?_, .inl (by decide)⟩)
  exact fun hslash => absurd hslash.2 (by decide)

/-- The number before the slash of an address with a prefix length is a token of its own. -/
theorem slash_splits_word :
    Word (asciiBytes "10/8") ∧ (lexOn "10/8 up").ahead = asciiBytes "10/8" ++ asciiBytes " up" ∧
      (yylex (lexOn "10/8 up")).1 = .number ∧
      (yylex (lexOn "10/8 up")).2.ahead = asciiBytes "/8 up" ∧
      ¬Unaltered (asciiBytes "10/8") (asciiBytes " up") (lexOn "10/8 up")
        (yylex (lexOn "10/8 up")) := by
  have hnumber : (yylex (lexOn "10/8 up")).1 = .number := by decide +kernel
  refine ⟨⟨⟨49, asciiBytes "0/8", by decide, by decide⟩, by decide +kernel⟩, by decide, hnumber,
    by decide +kernel, not_unaltered_of_number hnumber⟩

end Ifconfigd.Parse
