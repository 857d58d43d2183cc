import Ifconfigd.Parse.Simulation

/-!
# Macro expansion

Reading `$n` puts the value of the macro `n` before the rest of the input: the lexer
then returns the tokens it would return if the value stood in the file instead.

While the value is read, one lexer has it in `parsebuf`, with the character after the
name in the pushback buffer. The other has it in the file, and in the pushback buffer
what it has read and given back, which is a number and the character after it at most.
-/

namespace Ifconfigd.Parse

open CLib

/-! ## The value in the macro text and in the file -/

def isDigitByte (b : Byte) : Bool := 48 ≤ b && b ≤ 57

theorem isdigit_schar {b : Byte} (h : b < 128) : isdigit (schar b) = isDigitByte b := by
  have hlt := UInt8.lt_iff_toNat_lt.1 h
  have hrange := schar_range b
  rw [Bool.eq_iff_iff, isdigit_iff hrange.1 hrange.2, schar_of_lt h, isDigitByte, Bool.and_eq_true,
    decide_eq_true_eq, decide_eq_true_eq, UInt8.le_iff_toNat_le, UInt8.le_iff_toNat_le]
  simp only [UInt8.reduceToNat]
  omega

/-- The number of digits a text begins with. -/
def digitRun (text : List Byte) : Nat := (text.takeWhile isDigitByte).length

/-- The values for which expansion is transparent: 7-bit, without newline, backslash
and `$`, and with no more than 100 digits in a row. -/
structure PlainValue (v : CStr) : Prop where
  ascii : ∀ b ∈ v.bytes, b < 128
  newline : 10 ∉ v.bytes
  backslash : 92 ∉ v.bytes
  dollar : 36 ∉ v.bytes
  digits : ∀ i, digitRun (v.bytes.drop i) ≤ 100

/-- The first lexer has read `i` characters of the value `v` from `parsebuf`; behind it
come `r` from the pushback buffer and the file. The second has the same before it in
its pushback buffer and its file. -/
structure InMacro (v : CStr) (r : Byte) (i : Nat) (back : List Byte) (s t : Lex) : Prop where
  index : i ≤ v.length
  parsebuf : s.parsebuf = some ⟨v, i⟩
  pushback : s.pushback = [r]
  given : back <+: v.bytes.drop i
  backLength : back.length ≤ 1 + digitRun (v.bytes.drop i)
  eq : t = { s with
    parsebuf := none
    pushback := back
    file := { s.file with rest := v.bytes.drop (i + back.length) ++ r :: s.file.rest } }

/-- The two lexers are in the same state, or read the value. The characters read last are
those of the value before the position; a character that is no digit was not given back
and is followed by nothing given back. -/
def MacroSim (v : CStr) (r : Byte) (hs : List Int) (s t : Lex) : Prop :=
  (∀ c ∈ hs, -128 ≤ c ∧ c < 256) ∧
    (t = s ∨ ∃ i back, InMacro v r i back s t ∧ hs <+: ((v.bytes.take i).reverse.map schar) ∧
      (∀ c ∈ hs.head?, isdigit c = true ∨ back = []))

theorem digitRun_cons (b : Byte) (text : List Byte) :
    digitRun (b :: text) = if isDigitByte b = true then digitRun text + 1 else 0 := by
  simp only [digitRun, List.takeWhile_cons]
  split <;> rfl

section MacroSim

variable {v : CStr} {r : Byte} (hv : PlainValue v)

include hv

/-- Reading a character of the value. -/
theorem InMacro.lgetc_value {i : Nat} {back : List Byte} {s t : Lex}
    (h : InMacro v r i back s t) (hi : i < v.bytes.length) (quotec : Int) :
    lgetc quotec s = (schar v.bytes[i], { s with parsebuf := some ⟨v, (i + 1 : Nat)⟩ }) ∧
      (lgetc quotec t).1 = schar v.bytes[i] ∧
      ∃ back', InMacro v r (i + 1) back' { s with parsebuf := some ⟨v, (i + 1 : Nat)⟩ }
          (lgetc quotec t).2 ∧ (isDigitByte v.bytes[i] = true ∨ back' = []) := by
  have hmem : v.bytes[i] ∈ v.bytes := List.getElem_mem hi
  have hascii := hv.ascii _ hmem
  have hdrop : v.bytes.drop i = v.bytes[i] :: v.bytes.drop (i + 1) := List.drop_eq_getElem_cons hi
  refine ⟨?_, ?_⟩
  · simp only [lgetc, h.parsebuf, Int.toNat_natCast, List.getElem?_eq_getElem hi]
    rw [if_pos (by omega)]
    rfl
  · obtain ⟨hidx, hbuf, hpush, ⟨rest, hgiven⟩, hlen, rfl⟩ := h
    cases back with
    | nil =>
        have hne : v.bytes[i] ≠ 92 := fun h92 => hv.backslash (h92 ▸ hmem)
        rw [lgetc_of_file rfl rfl (by rw [List.length_nil, Nat.add_zero, hdrop]; rfl) hne]
        refine ⟨uchar_of_lt hascii, [], ⟨hi, rfl, hpush, ⟨_, rfl⟩, Nat.zero_le _, rfl⟩, .inr rfl⟩
    | cons b back =>
        rw [hdrop, List.cons_append] at hgiven
        injection hgiven with hb hgiven
        subst hb
        rw [hdrop, digitRun_cons, List.length_cons] at hlen
        have hlen' : back.length ≤ 1 + digitRun (v.bytes.drop (i + 1)) ∧
            (isDigitByte v.bytes[i] = true ∨ back = []) := by
          split at hlen
          · next hd => exact ⟨by omega, .inl hd⟩
          · next hd =>
              have hnil : back = [] := List.eq_nil_of_length_eq_zero (by omega)
              exact ⟨by simp [hnil], .inr hnil⟩
        refine ⟨rfl, back, ⟨hi, rfl, hpush, ⟨rest, hgiven⟩, hlen'.1, ?_⟩, hlen'.2⟩
        simp only [lgetc, lgetcInput, List.length_cons]
        rw [show i + (back.length + 1) = i + 1 + back.length by omega]

theorem MacroSim.lungetc {c : Int} {hs : List Int} {s t : Lex} (h : MacroSim v r (c :: hs) s t)
    (hdigits : ∀ x ∈ hs, isdigit x = true) : MacroSim v r hs (lungetc c s) (lungetc c t) := by
  obtain ⟨hrange, h⟩ := h
  refine ⟨fun x hx => hrange x (List.mem_cons_of_mem _ hx), ?_⟩
  rcases h with rfl | ⟨i, back, h, hhist, hlast⟩
  · exact .inl rfl
  · right
    cases i with
    | zero => simp at hhist
    | succ j =>
        have hj : j < v.bytes.length := h.index
        have hdrop : v.bytes.drop j = v.bytes[j] :: v.bytes.drop (j + 1) :=
          List.drop_eq_getElem_cons hj
        rw [List.take_add_one, List.getElem?_eq_getElem hj] at hhist
        simp only [Option.toList_some, List.reverse_append, List.reverse_singleton,
          List.singleton_append, List.map_cons, List.cons_prefix_cons] at hhist
        obtain ⟨rfl, hhist⟩ := hhist
        have hascii := hv.ascii _ (List.getElem_mem hj)
        have hback : (v.bytes[j] :: back).length ≤ 1 + digitRun (v.bytes.drop j) := by
          rw [hdrop, digitRun_cons]
          rcases hlast _ rfl with hd | rfl
          · rw [isdigit_schar hascii] at hd
            have := h.backLength
            rw [if_pos hd, List.length_cons]
            omega
          · simp
        have hs' : Parse.lungetc (schar v.bytes[j]) s = { s with parsebuf := some ⟨v, j⟩ } := by
          simp only [Parse.lungetc, h.parsebuf, if_neg (schar_ne_eof hascii), Nat.cast_add,
            Nat.cast_one, add_sub_cancel_right]
          rw [if_pos (by omega)]
        have ht' : Parse.lungetc (schar v.bytes[j]) t = { t with pushback := v.bytes[j] :: back } := by
          have hroom : back.length < maxPushback - 1 := by
            have := h.backLength
            have := hv.digits (j + 1)
            simp only [maxPushback]
            omega
          rw [h.eq]
          simp only [Parse.lungetc, lungetc.push, if_neg (schar_ne_eof hascii), toByte_schar,
            if_pos hroom]
        rw [hs', ht']
        refine ⟨j, v.bytes[j] :: back, ⟨Nat.le_of_lt hj, rfl, h.pushback, ?_, hback, ?_⟩, hhist,
          fun x hx => .inl (hdigits x (List.mem_of_mem_head? hx))⟩
        · rw [hdrop, List.cons_prefix_cons]
          exact ⟨rfl, h.given⟩
        · rw [h.eq, List.length_cons, show j + (back.length + 1) = j + 1 + back.length by omega]

variable (hr : r < 128) (hslash : r ≠ 92)

include hr hslash

omit hv in
/-- Reading the character after the value. -/
theorem InMacro.lgetc_end {back : List Byte} {s t : Lex} (h : InMacro v r v.bytes.length back s t)
    (quotec : Int) :
    lgetc quotec s = (schar r, { s with parsebuf := none, pushback := [] }) ∧
      lgetc quotec t = lgetc quotec s := by
  have hs : lgetc quotec s = (schar r, { s with parsebuf := none, pushback := [] }) := by
    simp only [lgetc, h.parsebuf, Int.toNat_natCast, List.getElem?_length, lgetcInput, h.pushback]
    rw [if_pos (by omega)]
  refine ⟨hs, ?_⟩
  rw [hs]
  obtain ⟨-, -, -, ⟨rest, hgiven⟩, -, rfl⟩ := h
  rw [List.drop_length, List.append_eq_nil_iff] at hgiven
  obtain ⟨rfl, -⟩ := hgiven
  rw [lgetc_of_file rfl rfl (by rw [List.length_nil, Nat.add_zero, List.drop_length]; rfl) hslash,
    uchar_of_lt hr]
  rfl

theorem MacroSim.lgetc {hs : List Int} {s t : Lex} (quotec : Int)
    (hq : quotec = 0 ∨ quotec = ch '\'' ∨ quotec = ch '"') (h : MacroSim v r hs s t) :
    (lgetc quotec t).1 = (lgetc quotec s).1 ∧
      MacroSim v r ((lgetc quotec s).1 :: hs) (lgetc quotec s).2 (lgetc quotec t).2 := by
  obtain ⟨hrange, h⟩ := h
  have hrange' : ∀ c ∈ (Parse.lgetc quotec s).1 :: hs, -128 ≤ c ∧ c < 256 := by
    intro c hc
    rcases List.mem_cons.1 hc with rfl | hc
    · exact lgetc_range hq s
    · exact hrange c hc
  rcases h with rfl | ⟨i, back, h, hhist, -⟩
  · exact ⟨rfl, hrange', .inl rfl⟩
  · rcases Nat.lt_or_eq_of_le h.index with hi | rfl
    · obtain ⟨hs', ht, back', h', hlast⟩ := h.lgetc_value hv hi quotec
      rw [hs'] at hrange' ⊢
      refine ⟨ht, hrange', .inr ⟨i + 1, back', h', ?_, ?_⟩⟩
      · rw [List.take_add_one, List.getElem?_eq_getElem hi]
        simpa using hhist
      · rintro c hc
        cases hc
        rwa [isdigit_schar (hv.ascii _ (List.getElem_mem hi))]
    · obtain ⟨hs', ht⟩ := h.lgetc_end hr hslash quotec
      rw [ht]
      exact ⟨rfl, hrange', .inl rfl⟩

omit hv hr hslash in
theorem skip_congr {p : Int → Bool} {s t : Lex} (h : Parse.lgetc 0 s = Parse.lgetc 0 t) :
    skip p s = skip p t := by
  rw [skip.eq_def p s, skip.eq_def p t, h]

/-- Skipping over the value. -/
theorem InMacro.skip {p : Int → Bool} (hp : ∀ b ∈ v.bytes, p (schar b) = true) {i : Nat}
    {back : List Byte} {s t : Lex} (h : InMacro v r i back s t) :
    skip p t = skip p { s with parsebuf := none } := by
  induction hk : v.bytes.length - i generalizing i back s t with
  | zero =>
      obtain rfl : i = v.bytes.length := Nat.le_antisymm h.index (by omega)
      obtain ⟨hs', ht⟩ := h.lgetc_end hr hslash 0
      apply skip_congr
      rw [ht, hs']
      simp only [Parse.lgetc, lgetcInput, h.pushback]
  | succ k ih =>
      have hi : i < v.bytes.length := by omega
      obtain ⟨-, ht, back', h', -⟩ := h.lgetc_value hv hi 0
      have hmem : v.bytes[i] ∈ v.bytes := List.getElem_mem hi
      rw [skip.eq_def p t, dif_pos (by rw [ht]; exact ⟨schar_ne_eof (hv.ascii _ hmem), hp _ hmem⟩)]
      have hrest := ih h' (by omega)
      exact hrest

theorem MacroSim.findeol {hs : List Int} {s t : Lex} (h : MacroSim v r hs s t) :
    MacroSim v r [] (findeol s) (findeol t) := by
  refine ⟨by simp, .inl ?_⟩
  rcases h.2 with rfl | ⟨i, back, h, -, -⟩
  · rfl
  · have hskip : Parse.skip (· ≠ ch '\n') { t with parsebuf := none } =
        Parse.skip (· ≠ ch '\n') { s with parsebuf := none } := by
      have hbuf : { t with parsebuf := none } = t := by rw [h.eq]
      rw [hbuf]
      refine h.skip hv hr hslash ?_
      intro b hb
      have hne : b ≠ 10 := fun h10 => hv.newline (h10 ▸ hb)
      rw [decide_eq_true_eq, schar_of_lt (hv.ascii b hb)]
      intro h10
      exact hne (UInt8.toNat_inj.1 (Int.ofNat_inj.1 h10))
    simp only [Parse.findeol, hskip]

omit hv hr hslash in
/-- Assignments to anything but the input. -/
theorem MacroSim.congr {f : Lex → Lex} {hs : List Int} {s t : Lex} (h : MacroSim v r hs s t)
    (hf : ∀ s, (f s).parsebuf = s.parsebuf ∧ (f s).pushback = s.pushback ∧
      (f s).file.rest = s.file.rest)
    (hcomm : ∀ s back rest,
      f { s with parsebuf := none, pushback := back, file := { s.file with rest } } =
        { f s with parsebuf := none, pushback := back, file := { (f s).file with rest } }) :
    MacroSim v r hs (f s) (f t) := by
  refine ⟨h.1, ?_⟩
  rcases h.2 with rfl | ⟨i, back, h, hhist, hlast⟩
  · exact .inl rfl
  · refine .inr ⟨i, back, ⟨h.index, ?_, ?_, h.given, h.backLength, ?_⟩, hhist, hlast⟩
    · rw [(hf s).1, h.parsebuf]
    · rw [(hf s).2.1, h.pushback]
    · rw [h.eq, hcomm, (hf s).2.2]

theorem lexSim_macroSim : LexSim (fun _ => False) (MacroSim v r) where
  keeps :=
    ⟨⟨fun _ _ h => h, fun _ _ h => h, fun _ _ h => h, fun _ h => h, fun _ h => h, fun _ _ h => h⟩,
      fun _ _ _ h _ => h, fun _ _ h => h⟩
  lgetc quotec hq h _ := h.lgetc hv hr hslash quotec hq
  lungetc h hd := h.lungetc hv hd
  findeol h _ := h.findeol hv hr hslash
  yyerror m h := h.congr (f := yyerror m) (fun _ => ⟨rfl, rfl, rfl⟩) fun _ _ _ => rfl
  nextLine h := h.congr (f := nextLine) (fun _ => ⟨rfl, rfl, rfl⟩) fun _ _ _ => rfl
  startLine h :=
    h.congr (f := fun s => { s with lineno := s.file.lineno }) (fun _ => ⟨rfl, rfl, rfl⟩)
      fun _ _ _ => rfl
  val v h := h.congr (f := fun s => { s with val := v }) (fun _ => ⟨rfl, rfl, rfl⟩) fun _ _ _ => rfl
  symget nam h _ := by
    rcases h.2 with rfl | ⟨i, back, h, -, -⟩
    · rfl
    · rw [h.eq]
      rfl
  parsebuf h := by
    rcases h.2 with rfl | ⟨i, back, h, hhist, -⟩
    · rfl
    · exfalso
      have hmem := hhist.subset (List.mem_cons_self)
      simp only [List.mem_map, List.mem_reverse] at hmem
      obtain ⟨b, hb, hdollar⟩ := hmem
      have hb' := List.mem_of_mem_take hb
      rw [schar_of_lt (hv.ascii b hb')] at hdollar
      have h36 : b = 36 := UInt8.toNat_inj.1 (Int.ofNat_inj.1 hdollar)
      exact hv.dollar (h36 ▸ hb')
  startMacro val h hs ht := by
    rcases h.2 with rfl | ⟨i, back, h, -, -⟩
    · exact ⟨by simp, .inl rfl⟩
    · rw [h.parsebuf] at hs
      cases hs
  range h := h.1 _ List.mem_cons_self
  forget := by
    intro hs hs' s t h
    refine ⟨fun c hc => h.1 c (List.mem_append_left _ hc), ?_⟩
    rcases h.2 with rfl | ⟨i, back, hm, hhist, hlast⟩
    · exact .inl rfl
    · refine .inr ⟨i, back, hm, (List.prefix_append hs _).trans hhist, fun c hc => hlast c ?_⟩
      cases hs with
      | nil => cases hc
      | cons x hs => exact hc

end MacroSim

/-! ## `yylval.lineno` at the beginning -/

theorem joinLines_lineno (rest : List Byte) (fl vl vl' : Nat) :
    (joinLines rest fl vl').1 = (joinLines rest fl vl).1 ∧
      (joinLines rest fl vl').2.1 = (joinLines rest fl vl).2.1 ∧
      (joinLines rest fl vl').2.2.1 = (joinLines rest fl vl).2.2.1 := by
  rw [joinLines.eq_def rest fl vl', joinLines.eq_def rest fl vl]
  split
  · exact ⟨rfl, rfl, rfl⟩
  · split_ifs
    · exact ⟨rfl, rfl, rfl⟩
    · split
      · exact ⟨rfl, rfl, rfl⟩
      · split_ifs <;> exact ⟨rfl, rfl, rfl⟩

/-- Two lexers that agree but for `yylval.lineno`. -/
def EqUpToLineno (s t : Lex) : Prop := ∃ l, t = { s with lineno := l }

theorem lgetcInput_lineno {s t : Lex} (h : EqUpToLineno s t) :
    (lgetcInput 0 t).1 = (lgetcInput 0 s).1 ∧
      EqUpToLineno (lgetcInput 0 s).2 (lgetcInput 0 t).2 := by
  obtain ⟨l, rfl⟩ := h
  cases hpush : s.pushback with
  | cons b rest =>
      rw [lgetcInput.eq_def, lgetcInput.eq_def 0 s]
      simp only [hpush]
      exact ⟨trivial, l, rfl⟩
  | nil =>
      obtain ⟨h₁, h₂, h₃⟩ := joinLines_lineno s.file.rest s.file.lineno s.lineno l
      simp only [lgetcInput, hpush, getcJoined, h₁, h₂, h₃, ne_eq, not_true_eq_false, if_false]
      split <;> exact ⟨rfl, _, rfl⟩

theorem lgetc_lineno {s t : Lex} (h : EqUpToLineno s t) :
    (lgetc 0 t).1 = (lgetc 0 s).1 ∧ EqUpToLineno (lgetc 0 s).2 (lgetc 0 t).2 := by
  obtain ⟨l, rfl⟩ := h
  simp only [lgetc]
  split
  · exact lgetcInput_lineno ⟨l, rfl⟩
  · split
    · split
      · exact ⟨rfl, l, rfl⟩
      · exact lgetcInput_lineno ⟨l, rfl⟩
    · exact lgetcInput_lineno ⟨l, rfl⟩

theorem skip_lineno (p : Int → Bool) {s t : Lex} (h : EqUpToLineno s t) :
    (skip p t).1 = (skip p s).1 ∧ EqUpToLineno (skip p s).2 (skip p t).2 := by
  fun_induction skip p s generalizing t with
  | case1 s hc ih =>
      obtain ⟨heq, h'⟩ := lgetc_lineno h
      rw [skip.eq_def p t, heq, dif_pos hc]
      exact ih h'
  | case2 s hc =>
      obtain ⟨heq, h'⟩ := lgetc_lineno h
      rw [skip.eq_def p t, heq, dif_neg hc]
      exact ⟨heq, h'⟩

theorem lexStart_lineno {s t : Lex} (h : EqUpToLineno s t) : lexStart t = lexStart s := by
  obtain ⟨heq, h'⟩ := skip_lineno isBlank h
  have hstate : { (skip isBlank t).2 with lineno := (skip isBlank t).2.file.lineno } =
      { (skip isBlank s).2 with lineno := (skip isBlank s).2.file.lineno } := by
    obtain ⟨l, hl⟩ := h'
    rw [hl]
  simp only [lexStart, heq, hstate]

/-- What `yylex` returns depends on what is left after blanks and a comment. -/
theorem yylex_of_lexStart {s t : Lex} (hstart : lexStart t = lexStart s) : yylex t = yylex s := by
  by_cases hs : StartsMacro s
  · have ht : StartsMacro t := by rwa [StartsMacro, hstart]
    cases hname : macroName [] (lexStart s).2 with
    | eof s' => rw [yylex_of_eof hs hname, yylex_of_eof ht (by rw [hstart, hname])]
    | tooLong s' => rw [yylex_of_tooLong hs hname, yylex_of_tooLong ht (by rw [hstart, hname])]
    | done name s' =>
        cases hval : symget (CStr.read name) s' with
        | none =>
            rw [yylex_of_undefined hs hname hval, yylex_of_undefined ht (by rw [hstart, hname]) hval]
        | some val =>
            rw [yylex_of_expansion hs hname hval, yylex_of_expansion ht (by rw [hstart, hname]) hval]
  · have ht : ¬StartsMacro t := by rwa [StartsMacro, hstart]
    rw [yylex_of_token hs, yylex_of_token ht, hstart]

/-- `yylex` begins by setting `yylval.lineno`. -/
theorem yylex_lineno {s t : Lex} (h : EqUpToLineno s t) : yylex t = yylex s :=
  yylex_of_lexStart (lexStart_lineno h)

/-! ## Reading the name -/

/-- The characters of a macro name. -/
def isNameByte (b : Byte) : Bool := isalnum (uchar b) || uchar b = ch '_'

theorem isNameByte_ne_backslash {b : Byte} (h : isNameByte b = true) : b ≠ 92 := by
  rintro rfl
  revert h
  decide

section Name

variable {s : Lex} {n rest : List Byte} {r : Byte}

/-- A name of at most 8093 characters is read to its end. -/
theorem macroName_done (name : List Byte) (hbuf : s.parsebuf = none) (hpush : s.pushback = [])
    (hn : ∀ b ∈ n, isNameByte b = true) (hr : isNameByte r = false) (hslash : r ≠ 92)
    (hrest : s.file.rest = n ++ r :: rest) (hlen : name.length + n.length + 3 ≤ bufSize) :
    macroName name s = .done (name ++ n) { s.withText rest with pushback := [r] } := by
  induction n generalizing s name with
  | nil =>
      have hr' : (isalnum (uchar r) || decide (uchar r = ch '_')) = false := hr
      rw [List.length_nil] at hlen
      rw [macroName.eq_def, lgetc_of_file hbuf hpush hrest hslash]
      simp only [dif_neg (uchar_ne_eof r), hr', List.append_nil]
      rw [if_neg (by omega), if_neg Bool.false_ne_true]
      have hbuf' : (s.withText rest).parsebuf = none := hbuf
      have hpush' : (s.withText rest).pushback = [] := hpush
      simp [lungetc, lungetc.push, hbuf', hpush', uchar_ne_eof, toByte_uchar, maxPushback]
  | cons b n ih =>
      have hb := hn b List.mem_cons_self
      have hb' : (isalnum (uchar b) || decide (uchar b = ch '_')) = true := hb
      rw [List.length_cons] at hlen
      rw [macroName.eq_def, lgetc_of_file hbuf hpush hrest (isNameByte_ne_backslash hb)]
      simp only [dif_neg (uchar_ne_eof b), hb', if_true, toByte_uchar]
      rw [if_neg (by omega)]
      have hrec := ih (s := s.withText (n ++ r :: rest)) (name ++ [b]) hbuf hpush
        (fun x hx => hn x (List.mem_cons_of_mem _ hx)) rfl
        (by rw [List.length_append, List.length_singleton]; omega)
      rw [List.append_assoc] at hrec
      exact hrec

/-- A longer one is not. -/
theorem macroName_tooLong (name : List Byte) (hbuf : s.parsebuf = none) (hpush : s.pushback = [])
    (hn : ∀ b ∈ n, isNameByte b = true) (hslash : r ≠ 92)
    (hrest : s.file.rest = n ++ r :: rest) (hlen : bufSize < name.length + n.length + 3) :
    ∃ s', macroName name s = .tooLong s' := by
  induction n generalizing s name with
  | nil =>
      rw [List.length_nil] at hlen
      rw [macroName.eq_def, lgetc_of_file hbuf hpush hrest hslash]
      simp only [dif_neg (uchar_ne_eof r)]
      rw [if_pos (by omega)]
      exact ⟨_, rfl⟩
  | cons b n ih =>
      have hb := hn b List.mem_cons_self
      have hb' : (isalnum (uchar b) || decide (uchar b = ch '_')) = true := hb
      rw [List.length_cons] at hlen
      rw [macroName.eq_def, lgetc_of_file hbuf hpush hrest (isNameByte_ne_backslash hb)]
      simp only [dif_neg (uchar_ne_eof b), hb', if_true, toByte_uchar]
      split_ifs
      · exact ⟨_, rfl⟩
      · refine ih (s := s.withText (n ++ r :: rest)) (name ++ [b]) hbuf hpush
          (fun x hx => hn x (List.mem_cons_of_mem _ hx)) rfl ?_
        rw [List.length_append, List.length_singleton]
        omega

/-- Before a name `yylex` finds the `$`. -/
theorem lexStart_dollar (hbuf : s.parsebuf = none) (hpush : s.pushback = [])
    (hrest : s.file.rest = 36 :: rest) :
    lexStart s = (ch '$', { s.withText rest with lineno := s.file.lineno }) := by
  have hskip : skip isBlank s = (ch '$', s.withText rest) := by
    rw [skip.eq_def, lgetc_of_file hbuf hpush hrest (by decide)]
    rfl
  simp only [lexStart, hskip]
  rw [if_neg (by decide)]
  rfl

end Name

/-! ## Token sequences -/

/-- The value that belongs to a token. -/
def Token.value (a : Token) (v : Val) : Option Val :=
  if a = .string ∨ a = .number then some v else none

/-- The first `k` tokens and their values. -/
def tokens : Nat → Lex → List (Token × Option Val)
  | 0, _ => []
  | k + 1, s => ((yylex s).1, (yylex s).1.value (yylex s).2.val) :: tokens k (yylex s).2

theorem MacroSim.val_eq {v : CStr} {r : Byte} {hs : List Int} {s t : Lex}
    (h : MacroSim v r hs s t) : t.val = s.val := by
  rcases h.2 with rfl | ⟨i, back, h, -, -⟩
  · rfl
  · rw [h.eq]

theorem MacroSim.tokens {v : CStr} {r : Byte} (hv : PlainValue v) (hr : r < 128) (hslash : r ≠ 92)
    (k : Nat) {s t : Lex} (h : MacroSim v r [] s t) : tokens k s = tokens k t := by
  induction k generalizing s t with
  | zero => rfl
  | succ k ih =>
      obtain ⟨htok, h'⟩ := (lexSim_macroSim hv hr hslash).yylex h not_false
      rw [Parse.tokens, Parse.tokens, htok, h'.val_eq, ih h']

/-- The tokens of `$n` are the tokens of the value of `n`. -/
theorem macro_transparent {s : Lex} (hbuf : s.parsebuf = none) (hpush : s.pushback = [])
    {n v : CStr} (hn : ∀ b ∈ n.bytes, isNameByte b = true) (hlen : n.length ≤ 8093)
    (hval : symget n s = some v) (hv : PlainValue v) {r : Byte} {rest : List Byte}
    (hr : r < 128) (hname : isNameByte r = false) (hslash : r ≠ 92) (k : Nat) :
    tokens k (s.withText (36 :: n.bytes ++ r :: rest)) =
      tokens k (s.withText (v.bytes ++ r :: rest)) := by
  cases k with
  | zero => rfl
  | succ k =>
      -- The state in which the value is read from `parsebuf`.
      let inMacro : Lex :=
        { s.withText rest with
          lineno := s.file.lineno, pushback := [r], parsebuf := some ⟨v, 0⟩ }
      have hexpand : yylex (s.withText (36 :: n.bytes ++ r :: rest)) = yylex inMacro := by
        have hstart := lexStart_dollar (s := s.withText (36 :: n.bytes ++ r :: rest)) hbuf hpush rfl
        have hstarts : StartsMacro (s.withText (36 :: n.bytes ++ r :: rest)) := by
          rw [StartsMacro, hstart]
          exact ⟨rfl, hbuf⟩
        have hread : macroName [] (lexStart (s.withText (36 :: n.bytes ++ r :: rest))).2 =
            .done n.bytes { inMacro with parsebuf := s.parsebuf } := by
          rw [hstart]
          refine macroName_done [] hbuf hpush hn hname hslash rfl ?_
          rw [List.length_nil, Nat.zero_add]
          exact Nat.add_le_add_right hlen 3
        have hsym : symget (CStr.read n.bytes) { inMacro with parsebuf := s.parsebuf } = some v := by
          rw [CStr.read_bytes]
          exact hval
        rw [yylex_of_expansion hstarts hread hsym]
      have hvalue : yylex (s.withText (v.bytes ++ r :: rest)) =
          yylex { s.withText (v.bytes ++ r :: rest) with lineno := s.file.lineno } :=
        (yylex_lineno ⟨_, rfl⟩).symm
      have hsim : MacroSim v r [] inMacro
          { s.withText (v.bytes ++ r :: rest) with lineno := s.file.lineno } := by
        refine ⟨by simp, .inr ⟨0, [], ⟨Nat.zero_le _, rfl, rfl, ⟨_, rfl⟩, Nat.zero_le _, ?_⟩,
          ⟨_, rfl⟩, by simp⟩⟩
        simp [Lex.withText, inMacro, hbuf, hpush]
      rw [tokens, tokens, hexpand, hvalue, ← tokens, ← tokens]
      exact hsim.tokens hv hr hslash (k + 1)

/-- A lexer at the beginning of a line, with one macro. -/
def oneMacro (n v : CStr) : Lex :=
  ⟨⟨CStr.lit "stdin", [], 1, 0⟩, [], none, [], [⟨n, v, false⟩], 0, .none, []⟩

theorem plainValue_em0 : PlainValue (CStr.lit "em0") where
  ascii := by decide +kernel
  newline := by decide
  backslash := by decide
  dollar := by decide
  digits i := by
    have hrun : digitRun ((CStr.lit "em0").bytes.drop i) ≤ ((CStr.lit "em0").bytes.drop i).length :=
      (List.takeWhile_sublist _).length_le
    have hlen : (CStr.lit "em0").bytes.length = 3 := by decide
    rw [List.length_drop] at hrun
    omega

theorem macro_transparent_word :
    tokens 2 ((oneMacro (CStr.lit "m") (CStr.lit "em0")).withText (asciiBytes "$m\n")) =
      tokens 2 ((oneMacro (CStr.lit "m") (CStr.lit "em0")).withText (asciiBytes "em0\n")) :=
  macro_transparent (n := CStr.lit "m") rfl rfl (by decide +kernel) (by decide) rfl plainValue_em0
    (r := 10) (by decide) (by decide) (by decide) 2

/-- A name of 8094 letters. -/
def longName : CStr where
  bytes := List.replicate 8094 97
  noNul h := absurd (List.eq_of_mem_replicate h) (by decide)

/-- The buffer for the name ends after 8093 characters. -/
theorem macro_name_too_long :
    (∀ b ∈ longName.bytes, isNameByte b = true) ∧
      symget longName (oneMacro longName (CStr.lit "em0")) = some (CStr.lit "em0") ∧
      tokens 1 ((oneMacro longName (CStr.lit "em0")).withText (36 :: longName.bytes ++ [10])) ≠
        tokens 1 ((oneMacro longName (CStr.lit "em0")).withText (asciiBytes "em0\n")) := by
  have hn : ∀ b ∈ longName.bytes, isNameByte b = true := by
    intro b hb
    rw [List.eq_of_mem_replicate hb]
    decide
  refine ⟨hn, by simp [symget, oneMacro], ?_⟩
  have hstart := lexStart_dollar
    (s := (oneMacro longName (CStr.lit "em0")).withText (36 :: longName.bytes ++ [10])) rfl rfl rfl
  have herror : (yylex ((oneMacro longName (CStr.lit "em0")).withText
      (36 :: longName.bytes ++ [10]))).1 = .error := by
    obtain ⟨s', hs'⟩ := macroName_tooLong (n := longName.bytes) (r := 10) (s := (lexStart _).2) []
      (by rw [hstart]; rfl) (by rw [hstart]; rfl) hn (by decide) (by rw [hstart]; rfl)
      (by rw [longName, List.length_replicate]; decide)
    rw [yylex_of_tooLong (by rw [StartsMacro, hstart]; exact ⟨rfl, rfl⟩) hs']
    rfl
  have hword : (yylex ((oneMacro longName (CStr.lit "em0")).withText (asciiBytes "em0\n"))).1 =
      .string := by
    decide +kernel
  intro heq
  have hkind := congrArg (fun l => l.head?.map Prod.fst) heq
  simp only [tokens, List.head?_cons, Option.map_some, herror, hword, Option.some.injEq,
    reduceCtorEq] at hkind

end Ifconfigd.Parse
