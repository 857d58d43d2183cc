import Ifconfigd.Parse.Bounds
import Ifconfigd.Parse.Symbols

/-!
# Macros in use

`symset` frees the old value of a macro that is defined again. The parser reduces the
definition when the newline after it is the lookahead, and a newline is never read from a
macro: the values in the symbol table are made of strings, and the lexer drops newlines in
quotes and ends words at them. So the lexer is not reading any macro then.
-/

namespace Ifconfigd.Parse

open CLib Yacc

/-! ## Strings have no newline -/

theorem eq_newline_of_toByte {c : Int} (h₁ : -128 ≤ c) (h₂ : c < 256) (h : toByte c = 10) :
    c = ch '\n' := by
  have hnat := congrArg UInt8.toNat h
  simp only [toByte, UInt8.toNat_ofNat'] at hnat
  rw [show ch '\n' = 10 from rfl]
  simp at hnat
  omega

theorem toByte_ne_of_allowed {c : Int} (h : allowedInString c = true) : toByte c ≠ 10 := by
  intro hc
  simp [allowedInString, isalnum, ispunct, isClass, hc] at h

/-- A value that is not a string with a newline. -/
def OneLine (v : Val) : Prop := ∀ s, v = .string s → 10 ∉ s.bytes

theorem oneLine_number (n : Int) : OneLine (.number n) := nofun

theorem oneLine_none : OneLine .none := nofun

theorem oneLine_read {text : List Byte} (h : 10 ∉ text) : OneLine (.string (CStr.read text)) := by
  rintro _ ⟨⟩ hmem
  exact h (List.takeWhile_subset _ hmem)

section Lexer

variable {s s' : Lex} {text text' : List Byte}

theorem scan_oneLine {p : Int → Bool} (hp : ∀ c, p c = true → toByte c ≠ 10) {c : Int}
    (hc : toByte c ≠ 10) (htext : 10 ∉ text) (h : (scan p text c s).1 = .done text' s') :
    10 ∉ text' := by
  fun_induction scan p text c s with
  | case1 => cases h
  | case2 text c s hlen hnext ih => exact ih (hp _ hnext.2) (by simp [htext, hc.symm]) h
  | case3 text c s hlen hnext =>
      cases h
      simp [htext, hc.symm]

theorem quoteStep_char {quotec : Int} (hq : quotec = ch '\'' ∨ quotec = ch '"') {c : Int}
    (h : quoteStep quotec s = .char c s') : toByte c ≠ 10 := by
  obtain ⟨hlo, hhi⟩ := lgetc_range (.inr hq) s
  simp only [quoteStep] at h
  split_ifs at h with heof hnl hesc heof' hquote hnl' hclose <;> cases h
  · -- Only the quote itself loses its backslash.
    have hnext : (lgetc quotec (lgetc quotec s).2).1 = quotec := by
      rw [hesc] at hquote
      simpa [show ch '\\' ≠ ch ' ' by decide, show ch '\\' ≠ ch '\t' by decide] using hquote
    rw [hnext]
    rcases hq with rfl | rfl <;> decide
  · rw [hesc]
    decide
  · exact fun h10 => hnl (eq_newline_of_toByte hlo hhi h10)

theorem quoted_oneLine {quotec : Int} (hq : quotec = ch '\'' ∨ quotec = ch '"') (htext : 10 ∉ text)
    (h : quoted quotec text s = .done text' s') : 10 ∉ text' := by
  fun_induction quoted quotec text s with
  | case1 => cases h
  | case2 =>
      cases h
      exact htext
  | case3 text s s' heq ih => exact ih htext h
  | case4 => cases h
  | case5 text s c s' heq hlen ih =>
      exact ih (by simp [htext, (quoteStep_char hq heq).symm]) h

end Lexer

/-- The loops of the lexer leave `yylval` alone. -/
theorem loopKeeps_oneLine : LoopKeeps fun s => OneLine s.val where
  lgetc quotec _ := lgetc_holds (P := fun s => OneLine s.val) (fun _ _ h => h) fun s h => by
    simp only [lgetcInput, getcQuoted, getcJoined, popfile, yyerror]
    grind
  lungetc c _ h := lungetc_holds (P := fun s => OneLine s.val) (fun _ _ h => h) (fun _ _ h => h) h c
  yyerror _ _ h := h
  endMacro _ h := h
  nextLine _ h := h
  lineno _ _ h := h

section Lexer

variable {s : Lex}

theorem lexError_oneLine (m : Message) (h : OneLine s.val) : OneLine (lexError m s).2.val :=
  loopKeeps_oneLine.lexError m h

theorem lexQuoted_oneLine {quotec : Int} (hq : quotec = ch '\'' ∨ quotec = ch '"')
    (h : OneLine s.val) : OneLine (lexQuoted quotec s).2.val := by
  have hstate := loopKeeps_oneLine.quoted quotec [] h
  rw [lexQuoted]
  split
  · next heq => rwa [heq] at hstate
  · next heq =>
      rw [heq] at hstate
      exact lexError_oneLine _ hstate
  · next text s' heq => exact oneLine_read (quoted_oneLine hq List.not_mem_nil heq)

theorem lexWord_oneLine (c : Int) (h : OneLine s.val) : OneLine (lexWord c s).2.val := by
  have hstate := loopKeeps_oneLine.scan allowedInString [] c h
  rw [lexWord]
  split
  · next hc =>
      have hbyte : toByte c ≠ 10 := by
        simp only [Bool.or_eq_true, decide_eq_true_eq] at hc
        rcases hc with (hc | rfl) | rfl
        · exact toByte_ne_of_allowed (by simp [allowedInString, hc])
        · decide
        · decide
      split
      · next heq => rwa [heq] at hstate
      · next heq =>
          rw [heq] at hstate
          exact lexError_oneLine _ hstate
      · next text s' heq =>
          rw [heq] at hstate
          rw [wordToken]
          split
          · exact oneLine_read
              (scan_oneLine (fun _ => toByte_ne_of_allowed) hbyte List.not_mem_nil heq)
          · exact hstate
  · split
    · exact h
    · split <;> exact h

theorem lexNodigits_oneLine (text : List Byte) (h : OneLine s.val) :
    OneLine (lexNodigits text s).2.val := by
  have hstate := loopKeeps_oneLine.unread text.tail.reverse h
  simp only [lexNodigits]
  split
  · exact hstate
  · exact lexWord_oneLine _ hstate

theorem lexNumber_oneLine (c : Int) (h : OneLine s.val) : OneLine (lexNumber c s).2.val := by
  have hstate := loopKeeps_oneLine.scan isdigit [] c h
  simp only [lexNumber]
  split
  · next heq => rwa [heq] at hstate
  · next heq =>
      rw [heq] at hstate
      exact lexError_oneLine _ hstate
  · next heq =>
      rw [heq] at hstate
      split
      · exact lexNodigits_oneLine _ hstate
      · split
        · split
          · exact oneLine_number _
          · exact lexError_oneLine _ hstate
        · exact lexNodigits_oneLine _ hstate

theorem lexToken_oneLine (c : Int) (h : OneLine s.val) : OneLine (lexToken c s).2.val := by
  rw [lexToken]
  split
  · next hq => exact lexQuoted_oneLine (by simpa using hq) h
  · split
    · exact lexNumber_oneLine c h
    · exact lexWord_oneLine c h

/-- A token carries no string with a newline. -/
theorem yylex_oneLine (h : OneLine s.val) : OneLine (yylex s).2.val := by
  have hname : ∀ {s : Lex}, OneLine s.val → OneLine (macroName [] (lexStart s).2).state.val :=
    fun h => loopKeeps_oneLine.macroName [] (loopKeeps_oneLine.lexStart h)
  fun_induction yylex s with
  | case1 s hc s' heq =>
      have hs' := hname h
      rwa [heq] at hs'
  | case2 s hc s' heq =>
      have hs' := hname h
      rw [heq] at hs'
      exact lexError_oneLine _ hs'
  | case3 s hc name s' heq hsym =>
      have hs' := hname h
      rw [heq] at hs'
      exact lexError_oneLine _ hs'
  | case4 s hc name s' heq val hsym ih =>
      have hs' := hname h
      rw [heq] at hs'
      exact ih hs'
  | case5 s hc => exact lexToken_oneLine _ (loopKeeps_oneLine.lexStart h)

end Lexer

/-! ## Newlines do not come from macros -/

/-- No macro is being read when the token is a newline. -/
def EndsMacro (r : Token × Lex) : Prop := r.1 = .char (ch '\n') → r.2.parsebuf = none

/-- The text of the macro that is read, if there is one, satisfies `T`. -/
def MacroText (T : CStr → Prop) (s : Lex) : Prop := ∀ text i, s.parsebuf = some ⟨text, i⟩ → T text

/-- The text that is read stays the same until it is given up. -/
theorem loopKeeps_macroText (T : CStr → Prop) : LoopKeeps (MacroText T) where
  lgetc quotec s h := by
    rcases hbuf : s.parsebuf with _ | ⟨text, i⟩
    · exact fun _ _ hsome => by simp [lgetc, hbuf] at hsome
    · have htext := h text i hbuf
      simp only [lgetc, hbuf]
      split
      · split
        · rintro _ _ ⟨⟩
          exact htext
        · exact fun _ _ hsome => by simp at hsome
      · intro text' i' hsome
        simp only [lgetcInput_parsebuf, Option.some.injEq, Parsebuf.mk.injEq] at hsome
        exact hsome.1 ▸ htext
  lungetc c s h := by
    rcases hbuf : s.parsebuf with _ | ⟨text, i⟩
    · exact fun _ _ hsome => by simp [lungetc_parsebuf_none hbuf] at hsome
    · have htext := h text i hbuf
      simp only [lungetc, hbuf]
      split
      · exact h
      · split
        · rintro _ _ ⟨⟩
          exact htext
        · intro text' i' hsome
          simp only [push_parsebuf, Option.some.injEq, Parsebuf.mk.injEq] at hsome
          exact hsome.1 ▸ htext
  yyerror _ _ h := h
  endMacro _ _ := nofun
  nextLine _ h := h
  lineno _ _ h := h

/-- The text that is read is a value in the table, which the lexer leaves alone. -/
theorem lexKeeps_inTable (t : List Sym) :
    LexKeeps fun s => s.symhead = t ∧ MacroText (fun text => ∃ sym ∈ t, sym.val = text) s where
  lgetc quotec s h :=
    ⟨(lexKeeps_symhead t).lgetc quotec s h.1, (loopKeeps_macroText _).lgetc quotec s h.2⟩
  lungetc c s h := ⟨(lexKeeps_symhead t).lungetc c s h.1, (loopKeeps_macroText _).lungetc c s h.2⟩
  yyerror _ _ h := h
  endMacro _ h := ⟨h.1, nofun⟩
  nextLine _ h := h
  lineno _ _ h := h
  startMacro s nam val h hget := by
    refine ⟨h.1, ?_⟩
    rintro _ _ ⟨⟩
    rw [symget, h.1, Option.map_eq_some_iff] at hget
    obtain ⟨sym, hsym, hval⟩ := hget
    exact ⟨sym, List.mem_of_find?_eq_some hsym, hval⟩
  val _ _ h := h

/-- The text that is read has no newline. -/
def PlainMacro (s : Lex) : Prop := MacroText (fun text => 10 ∉ text.bytes) s

section Lexer

variable {s : Lex}

theorem lookup_ne_char (w : CStr) (c : Int) : lookup w ≠ .char c := by
  rw [lookup]
  cases hfind : keywords.find? fun k => k.1 = w with
  | none => exact nofun
  | some k =>
      have hall : ∀ k ∈ keywords, ∀ c, k.2 ≠ .char c := by
        simp only [keywords, List.forall_mem_cons]
        simp
      exact hall k (List.mem_of_find?_eq_some hfind) c

theorem lexWord_endsMacro {c : Int} (h : c = ch '\n' → s.parsebuf = none) :
    EndsMacro (lexWord c s) := by
  rw [lexWord]
  split
  · split
    · intro h
      cases h
    · intro h
      cases h
    · next text s' _ =>
        rw [wordToken]
        split
        · intro h
          cases h
        · exact fun htoken => absurd htoken (lookup_ne_char _ _)
  · split
    · next hc => exact fun _ => h hc
    · split
      · intro h
        cases h
      · next hne _ => exact fun htoken => absurd (Token.char.inj htoken) hne

theorem scan_prefix {p : Int → Bool} {text text' : List Byte} {c : Int} {s' : Lex}
    (h : (scan p text c s).1 = .done text' s') : text ++ [toByte c] <+: text' := by
  fun_induction scan p text c s with
  | case1 => cases h
  | case2 text c s hlen hnext ih => exact (List.prefix_append _ _).trans (ih h)
  | case3 text c s hlen hnext =>
      cases h
      exact List.prefix_rfl

theorem lexNodigits_endsMacro {text : List Byte} (h : schar (text.headD 0) ≠ ch '\n') :
    EndsMacro (lexNodigits text s) := by
  simp only [lexNodigits]
  split
  · exact fun htoken => absurd (Token.char.inj htoken) h
  · exact lexWord_endsMacro fun hc => absurd hc h

theorem lexNumber_endsMacro {c : Int} (hlo : -128 ≤ c) (hhi : c < 128) (hc : c ≠ ch '\n') :
    EndsMacro (lexNumber c s) := by
  simp only [lexNumber]
  split
  · intro h
    cases h
  · intro h
    cases h
  · next text s' heq =>
      have hhead : schar (text.headD 0) ≠ ch '\n' := by
        obtain ⟨more, rfl⟩ := scan_prefix heq
        simpa [schar_toByte hlo hhi] using hc
      split
      · exact lexNodigits_endsMacro hhead
      · split
        · split
          · intro h
            cases h
          · intro h
            cases h
        · exact lexNodigits_endsMacro hhead

theorem lexToken_endsMacro {c : Int} (hlo : -128 ≤ c) (hhi : c < 256)
    (h : c = ch '\n' → s.parsebuf = none) : EndsMacro (lexToken c s) := by
  rw [lexToken]
  split
  · rw [lexQuoted]
    split <;> intro h <;> cases h
  · split
    · next hnum =>
        have hdigit : c = ch '-' ∨ 48 ≤ c ∧ c ≤ 57 := by
          simp only [Bool.or_eq_true, decide_eq_true_eq, isdigit_iff hlo hhi] at hnum
          exact hnum
        have hrange : 11 ≤ c ∧ c < 128 := by
          rw [show ch '-' = 45 from rfl] at hdigit
          omega
        refine lexNumber_endsMacro hlo hrange.2 ?_
        rw [show ch '\n' = 10 from rfl]
        omega
    · exact lexWord_endsMacro h

/-- A newline is read only once there is no macro text any more. -/
theorem lgetc_newline (h : s.Bounded) (hplain : PlainMacro s) (quotec : Int)
    (hc : (lgetc quotec s).1 = ch '\n') : (lgetc quotec s).2.parsebuf = none := by
  rcases h.lgetc_cases quotec with ⟨text, i, b, hbuf, -, hb, hget⟩ | ⟨hnone, -⟩
  · rw [hget] at hc
    have hb10 : b = 10 := by
      have hbyte := congrArg toByte hc
      rwa [toByte_schar] at hbyte
    subst hb10
    exact absurd (List.mem_of_getElem? hb) (hplain text i hbuf)
  · exact hnone

theorem skip_newline {p : Int → Bool} (h : s.Bounded) (hplain : PlainMacro s) :
    (skip p s).1 = ch '\n' → (skip p s).2.parsebuf = none := by
  fun_induction skip p s with
  | case1 s hc ih => exact ih (h.lgetc 0) ((loopKeeps_macroText _).lgetc 0 s hplain)
  | case2 s hc => exact lgetc_newline h hplain 0

theorem lexStart_newline (h : s.Bounded) (hplain : PlainMacro s) :
    (lexStart s).1 = ch '\n' → (lexStart s).2.parsebuf = none := by
  have hbounded := ((held_tracks 0).skip isBlank h.account).1.bounded
  have hplain' := (loopKeeps_macroText _).skip isBlank hplain
  simp only [lexStart]
  split
  · exact skip_newline ⟨hbounded.pushback, hbounded.parsebuf⟩ hplain'
  · exact skip_newline h hplain

theorem skip_range (p : Int → Bool) (s : Lex) : -128 ≤ (skip p s).1 ∧ (skip p s).1 < 256 := by
  fun_induction skip p s with
  | case1 s hc ih => exact ih
  | case2 s hc => exact lgetc_range (.inl rfl) s

theorem lexStart_range (s : Lex) : -128 ≤ (lexStart s).1 ∧ (lexStart s).1 < 256 := by
  simp only [lexStart]
  split
  · exact skip_range _ _
  · exact skip_range _ _

/-- Where no value in the table has a newline, no macro is being read after a newline. -/
theorem yylex_endsMacro (h : s.Bounded) (hplain : PlainMacro s)
    (htable : ∀ sym ∈ s.symhead, 10 ∉ sym.val.bytes) : EndsMacro (yylex s) := by
  fun_induction yylex s with
  | case1 => exact fun h => by cases h
  | case2 => exact fun h => by cases h
  | case3 => exact fun h => by cases h
  | case4 s hc name s' heq val hsym ih =>
      have hs' := h.lexStart.macroName []
      have hsymhead := (lexKeeps_symhead s.symhead).macroName []
        ((lexKeeps_symhead s.symhead).lexStart rfl)
      rw [heq] at hs' hsymhead
      change s'.symhead = s.symhead at hsymhead
      refine ih (hs'.expand val) ?_ (by rwa [hsymhead])
      rintro _ _ ⟨⟩
      rw [symget, hsymhead, Option.map_eq_some_iff] at hsym
      obtain ⟨sym, hfind, rfl⟩ := hsym
      exact htable sym (List.mem_of_find?_eq_some hfind)
  | case5 s hc =>
      obtain ⟨hlo, hhi⟩ := lexStart_range s
      exact lexToken_endsMacro hlo hhi (lexStart_newline h hplain)

end Lexer

/-! ## The actions -/

section Actions

variable {Q : Val → Prop} {vs : List Val}

/-- The value an action makes, if it makes one, satisfies `Q`. -/
def Makes (Q : Val → Prop) : Outcome Val Yy → Prop
  | .ok w _ => Q w
  | .error _ | .crash => True

theorem withString_makes {i : Nat} {k : CStr → Outcome Val Yy}
    (h : ∀ a, vs[i]? = some (.string a) → Makes Q (k a)) : Makes Q (withString vs i k) := by
  rw [withString]
  split
  · next a ha => exact h a ha
  · trivial

theorem withNumber_makes {i : Nat} {k : Int → Outcome Val Yy} (h : ∀ n, Makes Q (k n)) :
    Makes Q (withNumber vs i k) := by
  rw [withNumber]
  split
  · exact h _
  · trivial

theorem withPtr_makes {p : Option Nat} {k : Nat → Outcome Val Yy} (h : ∀ i, Makes Q (k i)) :
    Makes Q (withPtr p k) := by
  cases p with
  | some i => exact h i
  | none => trivial

variable {v : Val} {y : Yy} (hv : Q v)

include hv

theorem actInclude_makes (fs : FileSystem) (name : CStr) : Makes Q (actInclude fs v name y) := by
  rw [actInclude]
  split
  · trivial
  · exact hv

theorem actGlobal_makes (n : Int) : Makes Q (actGlobal v n y) := by
  rw [actGlobal]
  split
  · trivial
  · exact hv

theorem actNetwork_makes (name : CStr) : Makes Q (actNetwork v name y) := by
  rw [actNetwork]
  split
  · trivial
  · exact hv

theorem actEthernetDhcp_makes (yes : Int) : Makes Q (actEthernetDhcp v yes y) := by
  rw [actEthernetDhcp]
  split <;> exact withPtr_makes fun _ => hv

theorem actWirelessDhcp_makes (yes : Int) : Makes Q (actWirelessDhcp v yes y) := by
  rw [actWirelessDhcp]
  split <;> exact withPtr_makes fun _ => hv

/-- An action keeps the value it is given, or makes a number, or joins two strings. -/
theorem action_makes (fs : FileSystem) (n : Nat) (hnumber : ∀ k, Q (.number k))
    (hjoin : ∀ a b, vs[1]? = some (.string a) → vs[0]? = some (.string b) →
      Q (.string (CStr.read (a.bytes ++ [32] ++ b.bytes)))) : Makes Q (action fs n vs v y) := by
  unfold action
  split
  all_goals first
    | exact hv
    | exact hnumber _
    | exact withString_makes fun _ _ => withPtr_makes fun _ => hv
    | exact withNumber_makes fun _ => withPtr_makes fun _ => hv
    | exact withString_makes fun _ _ => withString_makes fun _ _ => hv
    | exact withString_makes fun a ha => withString_makes fun b hb => hjoin a b ha hb
    | exact withString_makes fun _ _ => actInclude_makes hv fs _
    | exact withNumber_makes fun _ => actGlobal_makes hv _
    | exact withString_makes fun _ _ => actNetwork_makes hv _
    | exact withNumber_makes fun _ => actEthernetDhcp_makes hv _
    | exact withNumber_makes fun _ => actWirelessDhcp_makes hv _

end Actions

theorem defaultVal_oneLine {n : Nat} {vs : List Val} (h : ∀ v ∈ vs, OneLine v) :
    OneLine (defaultVal n vs) := by
  rw [defaultVal]
  split
  · exact oneLine_none
  · rw [List.getD_eq_getElem?_getD]
    cases hget : vs[tables.len n - 1]? with
    | none => exact oneLine_none
    | some v => exact h v (List.mem_of_getElem? hget)

theorem action_oneLine {fs : FileSystem} {n : Nat} {vs : List Val} {y x : Yy} {v : Val}
    (h : ∀ v ∈ vs, OneLine v) (hact : (client fs).action n vs y = .ok v x) : OneLine v := by
  have hmakes := @action_makes OneLine vs (defaultVal n vs) y (defaultVal_oneLine h) fs n
    oneLine_number fun a b ha hb => oneLine_read ?_
  · change action fs n vs _ y = _ at hact
    rwa [hact] at hmakes
  · have ha10 := h _ (List.mem_of_getElem? ha) a rfl
    have hb10 := h _ (List.mem_of_getElem? hb) b rfl
    simp [ha10, hb10]

/-- What is known about the macros and the last value. -/
structure Lex.Plain (s : Lex) : Prop where
  table : ∀ sym ∈ s.symhead, 10 ∉ sym.val.bytes
  inUse : MacroText (fun text => ∃ sym ∈ s.symhead, sym.val = text) s
  val : OneLine s.val

section Plain

variable {s s' : Lex}

theorem Lex.Plain.plainMacro (h : s.Plain) : PlainMacro s := by
  intro text i hbuf
  obtain ⟨sym, hsym, rfl⟩ := h.inUse text i hbuf
  exact h.table sym hsym

theorem Lex.Plain.yylex (h : s.Plain) : (yylex s).2.Plain := by
  obtain ⟨hsymhead, hinUse⟩ := (lexKeeps_inTable s.symhead).yylex ⟨rfl, h.inUse⟩
  refine ⟨?_, ?_, yylex_oneLine h.val⟩
  · rw [hsymhead]
    exact h.table
  · rw [hsymhead]
    exact hinUse

theorem Lex.Plain.same (h : s.Plain) (hsym : s'.symhead = s.symhead)
    (hbuf : s'.parsebuf = s.parsebuf) (hval : s'.val = s.val) : s'.Plain := by
  refine ⟨by rw [hsym]; exact h.table, ?_, by rw [hval]; exact h.val⟩
  rw [MacroText, hsym, hbuf]
  exact h.inUse

theorem Lex.Plain.lungetc (h : s.Plain) (c : Int) : (lungetc c s).Plain := by
  obtain ⟨hsymhead, hinUse⟩ := (lexKeeps_inTable s.symhead).lungetc c s ⟨rfl, h.inUse⟩
  refine ⟨?_, ?_, loopKeeps_oneLine.lungetc c s h.val⟩
  · rw [hsymhead]
    exact h.table
  · rw [hsymhead]
    exact hinUse

/-- A macro is set while none is being read. -/
theorem Lex.Plain.symset (h : s.Plain) (hbuf : s.parsebuf = none) (nam : CStr) {val : CStr}
    (hval : 10 ∉ val.bytes) : { s with symhead := symset nam val false s.symhead }.Plain := by
  refine ⟨fun sym hsym => ?_, fun text i hsome => ?_, h.val⟩
  · rcases mem_symset hsym with hold | rfl
    · exact h.table sym hold
    · exact hval
  · change s.parsebuf = _ at hsome
    rw [hbuf] at hsome
    cases hsome

end Plain

theorem action_plain (fs : FileSystem) {n : Nat} {vs : List Val} {y : Yy} (h : y.lex.Plain)
    (hvs : ∀ v ∈ vs, OneLine v) (hvarset : n = 18 → y.lex.parsebuf = none) :
    ((client fs).action n vs y).Holds fun x =>
      x.lex.Plain ∧ (y.lex.parsebuf = none → x.lex.parsebuf = none) := by
  by_cases hn : n = 18
  · subst hn
    have hbuf := hvarset rfl
    change (withString vs 1 fun nam => withString vs 0 fun val =>
      .ok _ { y with lex := { y.lex with symhead := symset nam val false y.lex.symhead } }).Holds _
    simp only [withString]
    split
    · split
      · next val hval =>
          exact ⟨h.symset hbuf _ (hvs _ (List.mem_of_getElem? hval) val rfl), fun _ => hbuf⟩
      · trivial
    · trivial
  · refine (action_lexEffect fs n vs _ y).mono fun x hx => ?_
    cases hx with
    | same hlex =>
        rw [hlex]
        exact ⟨h, id⟩
    | report m hlex =>
        rw [hlex]
        exact ⟨h.same rfl rfl rfl, id⟩
    | grammarError _ hlex =>
        rw [hlex]
        exact ⟨h.same rfl rfl rfl, id⟩
    | «include» _ name nfile _ hlex =>
        have hopened : { y.lex with file := nfile, prev := y.lex.file :: y.lex.prev }.Plain :=
          h.same rfl rfl rfl
        rw [hlex]
        exact ⟨hopened.lungetc _, fun hbuf => lungetc_parsebuf_none hbuf⟩
    | varset hn' => exact absurd hn' hn

/-! ## The runs of the parser -/

/-- A macro is defined once the newline after the definition was read. -/
theorem look_of_reducing_varset {p : State Token Val Yy} (h : Reducing tables p 18) :
    p.look = some (.char (ch '\n')) := by
  have hrow : ∀ st < rows.length, (row st).defred ≠ some 18 ∧
      ∀ e ∈ (row st).reduces, e.2 = 18 → e.1 = .char (ch '\n') := by decide +kernel
  have hall := row_forall (P := fun _ r => r.defred ≠ some 18 ∧
    ∀ e ∈ r.reduces, e.2 = 18 → e.1 = .char (ch '\n')) hrow
    (fun _ => ⟨nofun, fun _ he => nomatch he⟩) (top p.stack)
  rcases h.rule with hdef | ⟨-, a, hlook, -, hreduce⟩
  · exact absurd hdef hall.1
  · have ha : a = .char (ch '\n') := hall.2 _ (mem_of_entry hreduce) rfl
    rw [hlook, ha]

/-- What is kept along a run. -/
structure MacroSafe (p : State Token Val Yy) : Prop where
  fitting : Fitting p
  plain : p.client.lex.Plain
  newline : p.look = some (.char (ch '\n')) → p.client.lex.parsebuf = none
  stack : ∀ v ∈ p.stack.map Prod.snd, OneLine v

section Runs

variable {fs : FileSystem} {p q : State Token Val Yy}

theorem MacroSafe.varset (h : MacroSafe p) (hred : Reducing tables p 18) :
    p.client.lex.parsebuf = none :=
  h.newline (look_of_reducing_varset hred)

theorem MacroSafe.action (h : MacroSafe p) (fs : FileSystem) {n : Nat} (hred : Reducing tables p n) :
    ((client fs).action n (p.stack.map Prod.snd) p.client).Holds fun x =>
      x.lex.Plain ∧ (p.client.lex.parsebuf = none → x.lex.parsebuf = none) :=
  action_plain fs h.plain h.stack fun hn => h.varset (hn ▸ hred)

theorem MacroSafe.erring (h : MacroSafe p) {x : Yy} (herr : Erring tables (client fs) p x) :
    x.lex.Plain ∧ (p.client.lex.parsebuf = none → x.lex.parsebuf = none) := by
  cases herr with
  | action hred hact =>
      have hplain := h.action fs hred
      rwa [hact] at hplain
  | token =>
      split
      · exact ⟨h.plain.same rfl rfl rfl, id⟩
      · exact ⟨h.plain, id⟩

theorem oneLine_cons {v : Val} {vs : List Val} (hv : OneLine v) (hvs : ∀ w ∈ vs, OneLine w) :
    ∀ w ∈ v :: vs, OneLine w := List.forall_mem_cons.2 ⟨hv, hvs⟩

theorem MacroSafe.drop (h : MacroSafe p) (k : Nat) :
    ∀ v ∈ (p.stack.drop k).map Prod.snd, OneLine v := by
  intro v hv
  rw [List.map_drop] at hv
  exact h.stack v (List.mem_of_mem_drop hv)

theorem clamp_eq_newline {a : Token} (h : a.clamp = .char (ch '\n')) : a = .char (ch '\n') := by
  cases a with
  | char c =>
      change Token.char (if c < 0 then 0 else c) = _ at h
      split at h
      · cases h
      · exact h
  | _ => cases h

theorem MacroSafe.step (h : MacroSafe p) (hstep : step tables (client fs) p = .run q) :
    MacroSafe q := by
  have hfitting := h.fitting.step hstep
  cases step_effect hstep with
  | fetch hcalls =>
      refine ⟨hfitting, h.plain.yylex, fun hlook => ?_, h.stack⟩
      exact yylex_endsMacro h.fitting.bounded h.plain.plainMacro h.plain.table
        (clamp_eq_newline (Option.some.inj hlook))
  | resume hacc hlook => exact ⟨hfitting, h.plain, h.newline, h.stack⟩
  | shift hacc hdef hlook hshift => exact ⟨hfitting, h.plain, nofun, oneLine_cons h.plain.val h.stack⟩
  | goal hred hact =>
      have hplain := h.action fs hred
      have hval := action_oneLine h.stack hact
      rw [hact] at hplain
      exact ⟨hfitting, hplain.1, fun hlook => hplain.2 (h.newline hlook),
        oneLine_cons hval (h.drop _)⟩
  | reduce hred hact =>
      have hplain := h.action fs hred
      have hval := action_oneLine h.stack hact
      rw [hact] at hplain
      exact ⟨hfitting, hplain.1, fun hlook => hplain.2 (h.newline hlook),
        oneLine_cons hval (h.drop _)⟩
  | recover herr hflag hpop =>
      obtain ⟨hplain, hbuf⟩ := h.erring herr
      refine ⟨hfitting, hplain, fun hlook => hbuf (h.newline hlook), oneLine_cons hplain.val ?_⟩
      exact fun v hv => h.stack v (((popToError_suffix hpop).map _).subset hv)
  | discard herr => exact ⟨hfitting, (h.erring herr).1, nofun, h.stack⟩

theorem MacroSafe.finish (h : MacroSafe p) {status : Status} {y : Yy}
    (hdone : Yacc.step tables (client fs) p = .done status y) : y.lex.Plain := by
  cases step_finish hdone with
  | same => exact h.plain
  | @overflow x hx =>
      have hplain : x.lex.Plain := by
        cases hx with
        | shift => exact h.plain
        | reduce hred hact =>
            have hact' := h.action fs hred
            rw [hact] at hact'
            exact hact'.1
        | error herr => exact (h.erring herr).1
      exact hplain.same rfl rfl rfl
  | error herr => exact (h.erring herr).1

theorem macroSafe_initial {y : Yy} (hbounded : y.lex.Bounded) (h : y.lex.Plain) :
    MacroSafe (.initial y) :=
  ⟨fitting_initial hbounded, h, nofun, nofun⟩

theorem MacroSafe.reaches (h : MacroSafe p) (hq : Reaches tables (client fs) p q) : MacroSafe q :=
  hq.invariant (fun _ _ h hstep => h.step hstep) h

/-- The globals between calls of `parse_config` in a process that was given no macros. -/
inductive ParsedAlone : Globals → Prop
  | initial : ParsedAlone (.initial [])
  | call {fs : FileSystem} {fuel : Nat} {filename : CStr} {g g' : Globals}
      {conf : Option IfconfigdConf} (hg : ParsedAlone g)
      (h : parseConfig fs fuel filename g = some (.returned conf g')) : ParsedAlone g'

theorem ParsedAlone.parsed {g : Globals} (h : ParsedAlone g) : Parsed g := by
  induction h with
  | initial => exact .initial []
  | call _ hparse ih => exact .call ih hparse

theorem ParsedAlone.start {g : Globals} (h : ParsedAlone g) (hplain : g.yy.lex.Plain)
    (file : File) : MacroSafe (.initial (g.start file)) := by
  refine macroSafe_initial ?_ (hplain.same rfl rfl rfl)
  exact ⟨h.parsed.bounded.pushback, h.parsed.bounded.parsebuf⟩

theorem popfile_plain {s : Lex} (h : s.Plain) : ((popfile s).getD s).Plain := by
  rw [popfile.eq_def]
  split
  · exact h
  · exact h.same rfl rfl rfl

theorem ParsedAlone.plain {g : Globals} (h : ParsedAlone g) : g.yy.lex.Plain := by
  induction h with
  | initial => exact ⟨nofun, nofun, nofun⟩
  | @call fs fuel filename g g' conf hg hparse ih =>
      rcases parseConfig_returned hparse with rfl | ⟨file, q, status, y, -, hq, hdone, hg'⟩
      · exact ih
      · have hy := ((hg.start ih file).reaches hq).finish hdone
        rw [hg']
        exact popfile_plain hy

/-- No macro is freed while it is being read. In every state of a parse: a reduction that
sets a macro is made while no macro is read, no value in the symbol table has a newline,
and what is being read is a value that is in the table. -/
theorem no_macro_freed_in_use {g : Globals} (hg : ParsedAlone g) {file : File}
    (hp : Reaches tables (client fs) (.initial (g.start file)) p) :
    (Reducing tables p 18 → p.client.lex.parsebuf = none) ∧
      (∀ sym ∈ p.client.lex.symhead, 10 ∉ sym.val.bytes) ∧
      ∀ text i, p.client.lex.parsebuf = some ⟨text, i⟩ →
        ∃ sym ∈ p.client.lex.symhead, sym.val = text := by
  have hsafe := (hg.start hg.plain file).reaches hp
  exact ⟨hsafe.varset, hsafe.plain.table, hsafe.plain.inUse⟩

/-- A macro that is defined again by its own value, a quoted string. -/
def definedAgain : FileSystem where
  stdin := asciiBytes "a \"'b'\"\na $a\n"
  inode _ := none
  uid := 0
  openMax := none

/-- At the second definition the first value is in the table, and is not read any more. -/
theorem no_macro_freed_in_definition :
    ∃ p : State Token Val Yy,
      Reaches tables (client definedAgain) (.initial ((Globals.initial []).start
        ⟨CStr.lit "stdin", definedAgain.stdin, 1, 0⟩)) p ∧ Reducing tables p 18 ∧
      p.client.lex.symhead = [⟨CStr.lit "a", CStr.lit "'b'", false⟩] ∧
      p.client.lex.parsebuf = none := by
  have hsteps : (steps tables (client definedAgain) 18
      (.initial ((Globals.initial []).start ⟨CStr.lit "stdin", definedAgain.stdin, 1, 0⟩))).map
        (fun p => (p.accepting, top p.stack, p.look, p.client.lex.symhead)) =
      some (false, 19, some (.char (ch '\n')), [⟨CStr.lit "a", CStr.lit "'b'", false⟩]) := by
    decide +kernel
  obtain ⟨p, hp, heq⟩ := Option.map_eq_some_iff.1 hsteps
  simp only [Prod.mk.injEq] at heq
  obtain ⟨hacc, htop, hlook, hsymhead⟩ := heq
  have hred : Reducing tables p 18 := by
    refine ⟨hacc, .inr ?_⟩
    rw [htop]
    exact ⟨rfl, _, hlook, rfl, rfl⟩
  have hreach := reaches_of_steps hp
  exact ⟨p, hreach, hred, hsymhead, (no_macro_freed_in_use .initial hreach).1 hred⟩

end Runs

end Ifconfigd.Parse
