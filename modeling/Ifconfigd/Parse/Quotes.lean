import Ifconfigd.Parse.Ahead

/-!
# Quoted strings

A quoted string is written as a sequence of items: plain characters, escapes, and newlines
that stand for nothing. The lexer reads an escaped quote as the quote, but its test for an
escaped blank looks at the backslash, so there the backslash stays.
-/

namespace Ifconfigd.Parse

open CLib

/-- A character that stands for itself between quotes `q`. -/
structure PlainIn (q b : Byte) : Prop where
  ascii : b < 128
  notQuote : b ≠ q
  notSlash : b ≠ 92
  notNewline : b ≠ 10
  notNul : b ≠ 0

/-- What a quoted string is made of. -/
inductive QuoteItem (q : Byte)
  | plain (b : Byte) (h : PlainIn q b)
  | quote
  | space
  | tab
  | newline
  | continued

namespace QuoteItem

variable {q : Byte}

def spelling : QuoteItem q → List Byte
  | plain b _ => [b]
  | quote => [92, q]
  | space => [92, 32]
  | tab => [92, 9]
  | newline => [10]
  | continued => [92, 10]

def meaning : QuoteItem q → List Byte
  | plain b _ => [b]
  | quote => [q]
  | space => [32]
  | tab => [9]
  | newline | continued => []

/-- What the lexer stores. -/
def stored : QuoteItem q → List Byte
  | space => [92, 32]
  | tab => [92, 9]
  | item => item.meaning

def IsBlank (item : QuoteItem q) : Prop := item = space ∨ item = tab

end QuoteItem

/-- The longest string the buffer takes. -/
def maxQuoted : Nat := 8094

/-- The loop over a quoted string ends with `text`, before `rest`, or finds it too long. -/
def QuotedAs (text rest : List Byte) (prev : List File) (r : Scan) : Prop :=
  if text.length ≤ maxQuoted then
    ∃ s, r = .done text s ∧ s.Bounded ∧ s.ahead = rest ∧ s.prev = prev
  else ∃ s, r = .tooLong s

section Loop

variable {quotec : Int} {s s' : Lex} {acc text rest : List Byte} {prev : List File}

theorem quotedAs_char {c : Int} (hstep : quoteStep quotec s = .char c s')
    (h : acc.length < maxQuoted →
      QuotedAs (acc ++ [toByte c] ++ text) rest prev (quoted quotec (acc ++ [toByte c]) s')) :
    QuotedAs (acc ++ [toByte c] ++ text) rest prev (quoted quotec acc s) := by
  have hquoted : quoted quotec acc s =
      if acc.length + 1 ≥ bufSize - 1 then .tooLong s' else quoted quotec (acc ++ [toByte c]) s' := by
    rw [quoted.eq_def]
    split <;> rename_i heq <;> rw [hstep] at heq <;> cases heq
    rfl
  have hsize : bufSize - 1 = maxQuoted + 1 := rfl
  rw [hquoted]
  split
  · next hlong =>
      rw [QuotedAs, if_neg (by simp only [List.length_append, List.length_singleton]; omega)]
      exact ⟨s', rfl⟩
  · exact h (by omega)

theorem quotedAs_newline (hstep : quoteStep quotec s = .newline s')
    (h : QuotedAs text rest prev (quoted quotec acc s')) :
    QuotedAs text rest prev (quoted quotec acc s) := by
  have hquoted : quoted quotec acc s = quoted quotec acc s' := by
    rw [quoted.eq_def]
    split <;> rename_i heq <;> rw [hstep] at heq <;> cases heq
    rfl
  rwa [hquoted]

theorem quotedAs_close (hlen : acc.length ≤ maxQuoted) (hstep : quoteStep quotec s = .close s')
    (h : s'.Bounded) : QuotedAs acc s'.ahead s'.prev (quoted quotec acc s) := by
  have hquoted : quoted quotec acc s = .done acc s' := by
    rw [quoted.eq_def]
    split <;> rename_i heq <;> rw [hstep] at heq <;> cases heq
    rfl
  rw [QuotedAs, if_pos hlen]
  exact ⟨s', hquoted, h, rfl, rfl⟩

end Loop

/-! ## One pass through the loop -/

section Steps

variable {q : Byte} {s : Lex} {w : List Byte} (h : s.Bounded)

include h

theorem quoteStep_of_plain {b : Byte} (hb : PlainIn q b) (hs : s.ahead = b :: w) :
    quoteStep (schar q) s = .char (schar b) (s.after 1) := by
  have hget := lgetc_eq (schar q) h hs hb.ascii (.inl hb.notSlash)
  have h10 : schar b ≠ ch '\n' := fun heq => hb.notNewline (schar_inj.1 heq)
  have h92 : schar b ≠ ch '\\' := fun heq => hb.notSlash (schar_inj.1 heq)
  have hclose : schar b ≠ schar q := fun heq => hb.notQuote (schar_inj.1 heq)
  simp only [quoteStep, hget, if_neg (schar_ne_eof hb.ascii), if_neg h10, if_neg h92,
    if_neg hclose]

theorem quoteStep_of_newline (hs : s.ahead = 10 :: w) :
    quoteStep (schar q) s = .newline (nextLine (s.after 1)) := by
  have hget := lgetc_eq (schar q) h hs (by decide) (.inl (by decide))
  simp only [quoteStep, hget]
  rfl

variable (hq : q = 34 ∨ q = 39)

include hq

theorem quoteStep_of_close (hs : s.ahead = q :: w) :
    quoteStep (schar q) s = .close (s.after 1) := by
  have hget := lgetc_eq (schar q) h hs (by rcases hq with rfl | rfl <;> decide)
    (.inl (by rcases hq with rfl | rfl <;> decide))
  simp only [quoteStep, hget]
  rcases hq with rfl | rfl <;> rfl

/-- A backslash, and the character after it. -/
theorem quoteStep_of_escape {n : Byte} (hn : n < 128) (hs : s.ahead = 92 :: n :: w) :
    quoteStep (schar q) s =
      if n = q then .char (schar q) ((s.after 1).after 1)
      else if n = 10 then .newline (nextLine ((s.after 1).after 1))
      else .char (ch '\\') (lungetc (schar n) ((s.after 1).after 1)) := by
  have hne : schar q ≠ 0 := by rcases hq with rfl | rfl <;> decide
  have hget := lgetc_eq (schar q) h hs (by decide) (.inr hne)
  have hnext := lgetc_eq (schar q) (h.after 1) (ahead_after_one h hs) hn (.inr hne)
  simp only [quoteStep, hget, hnext]
  rw [if_neg (by decide), if_neg (by decide), if_pos (by decide), if_neg (schar_ne_eof hn)]
  by_cases hclose : n = q
  · subst hclose
    simp
  · have hclose' : schar n ≠ schar q := fun heq => hclose (schar_inj.1 heq)
    by_cases h10 : n = 10
    · subst h10
      rcases hq with rfl | rfl <;> rfl
    · have h10' : schar n ≠ ch '\n' := fun heq => h10 (schar_inj.1 heq)
      rw [if_neg hclose, if_neg h10]
      rw [if_neg (by simp [hclose']; decide), if_neg h10']
      rfl

end Steps

/-- An escaped blank: the backslash is stored, and the blank is read again. -/
theorem quotedAs_blank {q b : Byte} (hq : q = 34 ∨ q = 39) (hb : b = 32 ∨ b = 9) {s : Lex}
    {w text rest acc : List Byte} {prev : List File} (h : s.Bounded) (hs : s.ahead = 92 :: b :: w)
    (hnext : ∀ s' : Lex, s'.Bounded → s'.ahead = w → s'.prev = s.prev →
      (acc ++ [92, b]).length ≤ maxQuoted →
      QuotedAs (acc ++ [92, b] ++ text) rest prev (quoted (schar q) (acc ++ [92, b]) s')) :
    QuotedAs (acc ++ [92, b] ++ text) rest prev (quoted (schar q) acc s) := by
  have hplain : PlainIn q b := by
    rcases hb with rfl | rfl <;> rcases hq with rfl | rfl <;> constructor <;> decide
  have hstep := quoteStep_of_escape h hq hplain.ascii hs
  rw [if_neg hplain.notQuote, if_neg hplain.notNewline] at hstep
  obtain ⟨hback, hbounded, hprev⟩ := lungetc_ahead (h.after 1) (ahead_after_one h hs)
    (toByte_schar b) (schar_ne_eof hplain.ascii)
  have hsplit : acc ++ [92, b] ++ text = acc ++ [toByte (ch '\\')] ++ (b :: text) := by
    rw [show toByte (ch '\\') = 92 by decide]
    simp
  have hsplit' : acc ++ [92, b] = acc ++ [toByte (ch '\\')] ++ [toByte (schar b)] := by
    rw [show toByte (ch '\\') = 92 by decide, toByte_schar]
    simp
  rw [hsplit]
  refine quotedAs_char hstep fun hlen => ?_
  rw [← hsplit, hsplit']
  refine quotedAs_char (quoteStep_of_plain hbounded hplain hback) fun hlen' => ?_
  rw [← hsplit']
  refine hnext _ (hbounded.after 1) (ahead_after_one hbounded hback) ?_ ?_
  · rw [prev_after, hprev, prev_after]
  · simp only [List.length_append, List.length_cons, List.length_nil] at hlen' ⊢
    omega

/-- A quoted string, from its first item to the closing quote. -/
theorem quoted_items {q : Byte} (hq : q = 34 ∨ q = 39) (items : List (QuoteItem q))
    {acc rest : List Byte} {s : Lex} (h : s.Bounded) (hlen : acc.length ≤ maxQuoted)
    (hs : s.ahead = items.flatMap QuoteItem.spelling ++ q :: rest) :
    QuotedAs (acc ++ items.flatMap QuoteItem.stored) rest s.prev (quoted (schar q) acc s) := by
  induction items generalizing acc s with
  | nil =>
      have hclose := quotedAs_close hlen (quoteStep_of_close h hq hs) (h.after 1)
      rw [ahead_after_one h hs, prev_after] at hclose
      simpa using hclose
  | cons item items ih =>
      rw [List.flatMap_cons, List.append_assoc] at hs
      rw [List.flatMap_cons, ← List.append_assoc]
      -- The rest of the items, from any state that has them ahead.
      have hrest : ∀ {acc' : List Byte} {s' : Lex}, s'.Bounded →
          s'.ahead = items.flatMap QuoteItem.spelling ++ q :: rest → s'.prev = s.prev →
          acc'.length ≤ maxQuoted →
          QuotedAs (acc' ++ items.flatMap QuoteItem.stored) rest s.prev
            (quoted (schar q) acc' s') := by
        intro acc' s' hb' hs' hprev' hlen'
        have := ih hb' hlen' hs'
        rwa [hprev'] at this
      have hstored : ∀ {c : Byte} {s' : Lex}, quoteStep (schar q) s = .char (schar c) s' →
          s'.Bounded → s'.ahead = items.flatMap QuoteItem.spelling ++ q :: rest →
          s'.prev = s.prev →
          QuotedAs (acc ++ [c] ++ items.flatMap QuoteItem.stored) rest s.prev
            (quoted (schar q) acc s) := by
        intro c s' hstep hb' hs' hprev'
        rw [← toByte_schar c]
        refine quotedAs_char hstep fun hlt => hrest hb' hs' hprev' ?_
        simpa using hlt
      have hdropped : ∀ {s' : Lex}, quoteStep (schar q) s = .newline (nextLine s') →
          s'.Bounded → s'.ahead = items.flatMap QuoteItem.spelling ++ q :: rest →
          s'.prev = s.prev →
          QuotedAs (acc ++ [] ++ items.flatMap QuoteItem.stored) rest s.prev
            (quoted (schar q) acc s) := by
        intro s' hstep hb' hs' hprev'
        rw [List.append_nil]
        exact quotedAs_newline hstep (hrest ⟨hb'.pushback, hb'.parsebuf⟩ hs' hprev' hlen)
      have hprev₁ := prev_after s 1
      have hprev₂ : ((s.after 1).after 1).prev = s.prev := by rw [prev_after, prev_after]
      cases item with
      | plain b hb =>
          exact hstored (quoteStep_of_plain h hb hs) (h.after 1) (ahead_after_one h hs) hprev₁
      | newline =>
          exact hdropped (quoteStep_of_newline h hs) (h.after 1) (ahead_after_one h hs) hprev₁
      | quote =>
          have hstep := quoteStep_of_escape h hq (by rcases hq with rfl | rfl <;> decide) hs
          rw [if_pos rfl] at hstep
          exact hstored hstep ((h.after 1).after 1)
            (ahead_after_one (h.after 1) (ahead_after_one h hs)) hprev₂
      | continued =>
          have hstep := quoteStep_of_escape h hq (by decide) hs
          rw [if_neg (by rcases hq with rfl | rfl <;> decide), if_pos rfl] at hstep
          exact hdropped hstep ((h.after 1).after 1)
            (ahead_after_one (h.after 1) (ahead_after_one h hs)) hprev₂
      | space =>
          exact quotedAs_blank hq (.inl rfl) h hs fun s' hb' hs' hprev' hlen' =>
            hrest hb' hs' hprev' hlen'
      | tab =>
          exact quotedAs_blank hq (.inr rfl) h hs fun s' hb' hs' hprev' hlen' =>
            hrest hb' hs' hprev' hlen'

/-! ## What is stored -/

section Stored

variable {q : Byte} {items : List (QuoteItem q)}

theorem stored_eq_meaning (h : ∀ item ∈ items, ¬item.IsBlank) :
    items.flatMap QuoteItem.stored = items.flatMap QuoteItem.meaning := by
  refine List.flatMap_congr fun item hitem => ?_
  cases item with
  | space => exact absurd (.inl rfl) (h _ hitem)
  | tab => exact absurd (.inr rfl) (h _ hitem)
  | _ => rfl

theorem QuoteItem.length_meaning_le (item : QuoteItem q) :
    item.meaning.length ≤ item.stored.length := by
  cases item <;> simp [meaning, stored]

theorem length_meaning_le (items : List (QuoteItem q)) :
    (items.flatMap QuoteItem.meaning).length ≤ (items.flatMap QuoteItem.stored).length := by
  induction items with
  | nil => exact Nat.le_refl _
  | cons item items ih =>
      have hitem := item.length_meaning_le
      simp only [List.flatMap_cons, List.length_append]
      omega

/-- A backslash before a blank makes the stored string longer. -/
theorem length_meaning_lt {item : QuoteItem q} (hitem : item ∈ items) (hblank : item.IsBlank) :
    (items.flatMap QuoteItem.meaning).length < (items.flatMap QuoteItem.stored).length := by
  obtain ⟨before, after, rfl⟩ := List.append_of_mem hitem
  have hbefore := length_meaning_le before
  have hafter := length_meaning_le after
  have hlt : item.meaning.length < item.stored.length := by
    rcases hblank with rfl | rfl <;> exact Nat.lt_succ_self 1
  simp only [List.flatMap_append, List.flatMap_cons, List.length_append]
  omega

theorem stored_noNul (hq : q = 34 ∨ q = 39) : 0 ∉ items.flatMap QuoteItem.stored := by
  rw [List.mem_flatMap]
  rintro ⟨item, -, hmem⟩
  cases item with
  | plain b hb => exact hb.notNul (List.mem_singleton.1 hmem).symm
  | quote => rcases hq with rfl | rfl <;> exact absurd hmem (by decide)
  | space => exact absurd hmem (by decide : (0 : Byte) ∉ [92, 32])
  | tab => exact absurd hmem (by decide : (0 : Byte) ∉ [92, 9])
  | newline => cases hmem
  | continued => cases hmem

end Stored

/-- A quoted string whose decoded length fits the buffer is decoded by the rule exactly if
no blank in it is escaped. -/
theorem quoted_decodes_iff {q : Byte} (hq : q = 34 ∨ q = 39) (items : List (QuoteItem q)) {s : Lex}
    {rest : List Byte} (h : s.Bounded)
    (hs : s.ahead = q :: (items.flatMap QuoteItem.spelling ++ q :: rest))
    (hlen : (items.flatMap QuoteItem.meaning).length ≤ maxQuoted) :
    ((yylex s).1 = .string ∧
      (∃ v, (yylex s).2.val = .string v ∧ v.bytes = items.flatMap QuoteItem.meaning) ∧
      (yylex s).2.ahead = rest ∧ (yylex s).2.prev = s.prev) ↔
    ∀ item ∈ items, ¬item.IsBlank := by
  have hbegins : Begins q := by rcases hq with rfl | rfl <;> decide
  have hyylex : yylex s = lexQuoted (schar q) s.begun := by
    rw [yylex_of_ahead h hs hbegins, lexToken]
    rcases hq with rfl | rfl <;> rfl
  have hitems := @quoted_items q hq items [] rest _ h.begun (Nat.zero_le _) (ahead_begun h hs)
  rw [List.nil_append, prev_begun, QuotedAs] at hitems
  have hread : (CStr.read (items.flatMap QuoteItem.stored)).bytes =
      items.flatMap QuoteItem.stored := CStr.read_of_noNul (stored_noNul hq)
  rw [hyylex]
  constructor
  · rintro ⟨hstring, ⟨v, hval, hbytes⟩, -, -⟩ item hitem hblank
    split at hitems
    · obtain ⟨s', hquoted, -⟩ := hitems
      rw [lexQuoted, hquoted] at hval
      cases hval
      have hlt := length_meaning_lt hitem hblank
      rw [← hbytes, hread] at hlt
      exact Nat.lt_irrefl _ hlt
    · obtain ⟨s', hquoted⟩ := hitems
      rw [lexQuoted, hquoted] at hstring
      cases hstring
  · intro hplain
    have hstored := stored_eq_meaning hplain
    rw [hstored, if_pos hlen] at hitems
    obtain ⟨s', hquoted, -, hahead, hprev⟩ := hitems
    rw [lexQuoted, hquoted]
    refine ⟨rfl, ⟨_, rfl, ?_⟩, hahead, hprev⟩
    rwa [hstored] at hread

def plainItem (q b : Byte)
    (h : b < 128 ∧ b ≠ q ∧ b ≠ 92 ∧ b ≠ 10 ∧ b ≠ 0) : QuoteItem q :=
  .plain b ⟨h.1, h.2.1, h.2.2.1, h.2.2.2.1, h.2.2.2.2⟩

/-- Escaped quotes and both kinds of newlines decode by the rule. -/
theorem quoted_decodes_newlines :
    (yylex (lexOn "\"a\\\"\n\\\nb\" c")).1 = .string ∧
      ∃ v, (yylex (lexOn "\"a\\\"\n\\\nb\" c")).2.val = .string v ∧
        v.bytes = asciiBytes "a\"b" := by
  have hiff := @quoted_decodes_iff 34 (.inl rfl)
    [plainItem 34 97 (by decide), .quote, .newline, .continued, plainItem 34 98 (by decide)]
    (lexOn "\"a\\\"\n\\\nb\" c") (asciiBytes " c") (lexOn_bounded _) (by decide) (by decide)
  obtain ⟨htoken, hval, -⟩ := hiff.2 (by
    simp [QuoteItem.IsBlank, plainItem])
  exact ⟨htoken, hval⟩

/-- The backslash before a blank is part of the value. -/
theorem escaped_blank_keeps_backslash :
    ∃ items : List (QuoteItem 34),
      (lexOn "\"a\\ b\" c").ahead =
        34 :: (items.flatMap QuoteItem.spelling ++ 34 :: asciiBytes " c") ∧
      items.flatMap QuoteItem.meaning = asciiBytes "a b" ∧
      (yylex (lexOn "\"a\\ b\" c")).2.val = .string (CStr.lit "a\\ b") ∧
      (CStr.lit "a\\ b").bytes ≠ items.flatMap QuoteItem.meaning := by
  refine ⟨[plainItem 34 97 (by decide), .space, plainItem 34 98 (by decide)], ?_, ?_, ?_, ?_⟩
  · decide
  · decide
  · decide +kernel
  · decide

end Ifconfigd.Parse
