import Ifconfigd.Parse.Accesses
import Ifconfigd.Parse.Include
import Ifconfigd.Parse.Progress
import Ifconfigd.Parse.Written

/-!
# The arrays of the lexer

Every access of `yylex` is inside its array, because `lungetc` is only given characters
that were read before: those it may get are listed by an account of the input, and none of
them is older than the macro text.

The newline that an `include` pushes back was not read before. It takes the place of the
last character of the file name, so that there is one to step back over.
-/

namespace Ifconfigd.Parse

open CLib Yacc

/-! ## Bounded states -/

/-- The indices are inside their arrays. -/
structure Lex.Bounded (s : Lex) : Prop where
  pushback : s.pushback.length < maxPushback
  parsebuf : ∀ text i, s.parsebuf = some ⟨text, i⟩ → 0 ≤ i ∧ i ≤ text.length

/-- At least `k` characters of the macro text have been read. -/
structure Held (k : Nat) (s : Lex) : Prop where
  bounded : s.Bounded
  read : ∀ text i, s.parsebuf = some ⟨text, i⟩ → k ≤ i

section Held

variable {k : Nat} {s : Lex}

theorem Lex.Bounded.held (h : s.Bounded) : Held 0 s :=
  ⟨h, fun text i hbuf => by simpa using (h.parsebuf text i hbuf).1⟩

theorem held_of_none (hbuf : s.parsebuf = none) (hpush : s.pushback.length < maxPushback) :
    Held k s :=
  ⟨⟨hpush, fun _ _ hsome => by simp [hbuf] at hsome⟩, fun _ _ hsome => by simp [hbuf] at hsome⟩

theorem Held.same {s' : Lex} (h : Held k s) (hbuf : s'.parsebuf = s.parsebuf)
    (hpush : s'.pushback = s.pushback) : Held k s' :=
  ⟨⟨hpush ▸ h.bounded.pushback, hbuf ▸ h.bounded.parsebuf⟩, hbuf ▸ h.read⟩

theorem Held.mono {j : Nat} (h : Held k s) (hle : j ≤ k) : Held j s := by
  refine ⟨h.bounded, fun text i hbuf => ?_⟩
  have hread := h.read text i hbuf
  omega

@[simp] theorem lgetcInput_pushback (quotec : Int) (s : Lex) :
    (lgetcInput quotec s).2.pushback = s.pushback.tail := by
  simp only [lgetcInput, getcQuoted, getcJoined, popfile, yyerror]
  grind

/-- A character of the macro text is read, or there is no macro text any more. -/
theorem Lex.Bounded.lgetc_cases (h : s.Bounded) (quotec : Int) :
    (∃ text i b, s.parsebuf = some ⟨text, i⟩ ∧ i < text.length ∧ text.bytes[i.toNat]? = some b ∧
        lgetc quotec s = (schar b, { s with parsebuf := some ⟨text, i + 1⟩ })) ∨
      (lgetc quotec s).2.parsebuf = none ∧ (lgetc quotec s).2.pushback = s.pushback.tail := by
  cases hbuf : s.parsebuf with
  | none =>
      right
      simp [lgetc, hbuf]
  | some buf =>
      obtain ⟨text, i⟩ := buf
      have hi := (h.parsebuf text i hbuf).1
      cases hb : text.bytes[i.toNat]? with
      | none =>
          right
          simp [lgetc, hbuf, hi, hb]
      | some b =>
          left
          have hlt : i.toNat < text.bytes.length := (List.getElem?_eq_some_iff.1 hb).1
          refine ⟨text, i, b, rfl, ?_, hb, by simp [lgetc, hbuf, hi, hb]⟩
          rw [CStr.length]
          omega

theorem Held.lgetc (h : Held k s) (quotec : Int) : Held (k + 1) (lgetc quotec s).2 := by
  rcases h.bounded.lgetc_cases quotec with ⟨text, i, b, hbuf, hlt, -, hget⟩ | ⟨hbuf, hpush⟩
  · have hread := h.read text i hbuf
    rw [hget]
    refine ⟨⟨h.bounded.pushback, ?_⟩, ?_⟩
    · intro _ _ hbuf'
      cases hbuf'
      omega
    · intro _ _ hbuf'
      cases hbuf'
      omega
  · refine held_of_none hbuf ?_
    rw [hpush, List.length_tail]
    have := h.bounded.pushback
    omega

theorem push_parsebuf (c : Int) (s : Lex) : (lungetc.push c s).parsebuf = s.parsebuf := by
  simp only [lungetc.push]
  split <;> rfl

theorem push_pushback {c : Int} (h : s.pushback.length < maxPushback) :
    (lungetc.push c s).pushback.length < maxPushback := by
  simp only [lungetc.push]
  split
  · next hroom =>
      rw [List.length_cons]
      omega
  · exact h

theorem Held.lungetc (h : Held (k + 1) s) (c : Int) : Held k (lungetc c s) := by
  simp only [Parse.lungetc]
  split
  · exact h.mono (Nat.le_succ k)
  · split
    · next hbuf => exact held_of_none ((push_parsebuf c s).trans hbuf) (push_pushback h.bounded.pushback)
    · next text i hbuf =>
        have hread := h.read text i hbuf
        have hle := (h.bounded.parsebuf text i hbuf).2
        rw [if_pos (by omega)]
        refine ⟨⟨h.bounded.pushback, ?_⟩, ?_⟩
        · intro _ _ hbuf'
          cases hbuf'
          omega
        · intro _ _ hbuf'
          cases hbuf'
          omega

/-- How far the macro text has been read is an account of the input. -/
theorem held_tracks (k : Nat) : LexTracks fun hs s => Held (k + hs.length) s where
  lgetc quotec _ h := (h.lgetc quotec).mono (by have := recent_length_le quotec; grind)
  lungetc _ _ h := Held.lungetc h _
  forget hs _ _ h := h.mono (by rw [List.length_append]; omega)
  endMacro h := held_of_none rfl h.bounded.pushback
  same h _ hbuf hpush := h.same hbuf hpush

/-- Nothing is known to be read since the macro text was set. -/
theorem Lex.Bounded.account (h : s.Bounded) : Held (0 + ([] : List Int).length) s := h.held

end Held

/-! ## Every access is inside its array -/

structure LexOp.InBounds (op : LexOp) : Prop where
  states : ∀ s ∈ op.states, s.Bounded
  accesses : ∀ a ∈ op.accesses, a.InBounds

section InBounds

variable {s : Lex}

theorem popAccesses_inBounds (h : s.Bounded) : ∀ a ∈ popAccesses s, a.InBounds := by
  intro a ha
  have hpush := h.pushback
  rw [popAccesses] at ha
  split at ha
  · cases ha
  · cases List.mem_singleton.1 ha
    change _ < _
    omega

theorem pushAccesses_inBounds : ∀ a ∈ pushAccesses s, a.InBounds := by
  intro a ha
  rw [pushAccesses] at ha
  split at ha
  · cases List.mem_singleton.1 ha
    change _ < _
    omega
  · cases ha

theorem buf_inBounds {i : Nat} (h : i < bufSize) : (LexOp.buf i).InBounds := by
  refine ⟨nofun, fun a ha => ?_⟩
  cases List.mem_singleton.1 ha
  exact h

theorem Lex.Bounded.lgetc (h : s.Bounded) (quotec : Int) : (lgetc quotec s).2.Bounded :=
  (h.held.lgetc quotec).bounded

theorem lgetc_inBounds (h : s.Bounded) (quotec : Int) : (LexOp.lgetc quotec s).InBounds := by
  refine ⟨List.forall_mem_cons.2 ⟨h, List.forall_mem_singleton.2 (h.lgetc quotec)⟩, ?_⟩
  · intro a ha
    simp only [LexOp.accesses, lgetcAccesses] at ha
    split at ha
    · exact popAccesses_inBounds h a ha
    · next text i hbuf =>
        have hi := h.parsebuf text i hbuf
        rw [if_pos hi.1, List.mem_cons] at ha
        rcases ha with rfl | ha
        · exact hi
        · split at ha
          · exact popAccesses_inBounds h a ha
          · cases ha

theorem lungetc_inBounds (h : Held 1 s) (c : Int) : (LexOp.lungetc c s).InBounds := by
  refine ⟨List.forall_mem_cons.2 ⟨h.bounded, List.forall_mem_singleton.2 (h.lungetc c).bounded⟩, ?_⟩
  · intro a ha
    simp only [LexOp.accesses, lungetcAccesses] at ha
    split at ha
    · cases ha
    · split at ha
      · exact pushAccesses_inBounds a ha
      · split at ha
        · cases ha
        · exact pushAccesses_inBounds a ha

/-- The character read last is pushed back. -/
theorem unget_inBounds (h : s.Bounded) (quotec : Int) :
    (LexOp.lungetc (lgetc quotec s).1 (lgetc quotec s).2).InBounds :=
  lungetc_inBounds (h.held.lgetc quotec) _

theorem skipOps_inBounds (p : Int → Bool) (h : s.Bounded) : ∀ op ∈ skipOps p s, op.InBounds := by
  fun_induction skipOps p s with
  | case1 s hc ih => exact List.forall_mem_cons.2 ⟨lgetc_inBounds h 0, ih (h.lgetc 0)⟩
  | case2 s hc => exact List.forall_mem_singleton.2 (lgetc_inBounds h 0)

theorem lexErrorOps_inBounds (m : Message) (h : s.Bounded) :
    ∀ op ∈ lexErrorOps m s, op.InBounds :=
  skipOps_inBounds _ ⟨h.pushback, nofun⟩

theorem macroNameOps_inBounds (n : Nat) (h : s.Bounded) :
    ∀ op ∈ macroNameOps n s, op.InBounds := by
  fun_induction macroNameOps n s with
  | case1 n s hc => exact List.forall_mem_singleton.2 (lgetc_inBounds h 0)
  | case2 n s hc hlen => exact List.forall_mem_singleton.2 (lgetc_inBounds h 0)
  | case3 n s hc hlen hword ih =>
      exact List.forall_mem_cons.2 ⟨lgetc_inBounds h 0,
        List.forall_mem_cons.2 ⟨buf_inBounds (by omega), ih (h.lgetc 0)⟩⟩
  | case4 n s hc hlen hword =>
      exact List.forall_mem_cons.2 ⟨lgetc_inBounds h 0,
        List.forall_mem_cons.2 ⟨buf_inBounds (by omega),
          List.forall_mem_singleton.2 (unget_inBounds h 0)⟩⟩

theorem quoteStepOps_inBounds (quotec : Int) (h : s.Bounded) :
    ∀ op ∈ quoteStepOps quotec s, op.InBounds := by
  simp only [quoteStepOps]
  refine List.forall_mem_cons.2 ⟨lgetc_inBounds h quotec, ?_⟩
  split
  · refine List.forall_mem_cons.2 ⟨lgetc_inBounds (h.lgetc quotec) quotec, ?_⟩
    split
    · simp
    · exact List.forall_mem_singleton.2 (unget_inBounds (h.lgetc quotec) quotec)
  · simp

theorem quotedOps_inBounds {quotec : Int} (hq : quotec = ch '\'' ∨ quotec = ch '"') {n : Nat}
    (hn : n < bufSize) (h : s.Bounded) : ∀ op ∈ quotedOps quotec n s, op.InBounds := by
  have hstep : ∀ {s : Lex}, s.Bounded → (quoteStep quotec s).state.Bounded :=
    fun h => ((held_tracks 0).quoteStep hq h.account).bounded
  have happend : ∀ {s : Lex} {ops : List LexOp}, s.Bounded → (∀ op ∈ ops, op.InBounds) →
      ∀ op ∈ quoteStepOps quotec s ++ ops, op.InBounds :=
    fun h hops => List.forall_mem_append.2 ⟨quoteStepOps_inBounds quotec h, hops⟩
  fun_induction quotedOps quotec n s with
  | case1 n s s' heq => exact quoteStepOps_inBounds quotec h
  | case2 n s s' heq => exact happend h (List.forall_mem_singleton.2 (buf_inBounds hn))
  | case3 n s s' heq ih =>
      have hs' := hstep h
      rw [heq] at hs'
      exact happend h (ih hn hs')
  | case4 n s c s' heq hlen => exact quoteStepOps_inBounds quotec h
  | case5 n s c s' heq hlen ih =>
      have hs' := hstep h
      rw [heq] at hs'
      exact happend h (List.forall_mem_cons.2 ⟨buf_inBounds hn, ih (by omega) hs'⟩)

theorem scanOps_inBounds (p : Int → Bool) {n : Nat} (hn : n < bufSize) (h : s.Bounded) :
    ∀ op ∈ scanOps p n s, op.InBounds := by
  fun_induction scanOps p n s with
  | case1 n s hlen => exact List.forall_mem_singleton.2 (buf_inBounds hn)
  | case2 n s hlen hc ih =>
      exact List.forall_mem_cons.2 ⟨buf_inBounds hn,
        List.forall_mem_cons.2 ⟨lgetc_inBounds h 0, ih (by omega) (h.lgetc 0)⟩⟩
  | case3 n s hlen hc =>
      exact List.forall_mem_cons.2 ⟨buf_inBounds hn,
        List.forall_mem_cons.2 ⟨lgetc_inBounds h 0,
          List.forall_mem_singleton.2 (unget_inBounds h 0)⟩⟩

theorem scan_length {p : Int → Bool} {text text' : List Byte} {c : Int} {s' : Lex}
    (h : (scan p text c s).1 = .done text' s') : text'.length < bufSize := by
  fun_induction scan p text c s with
  | case1 => cases h
  | case2 text c s hlen hc ih => exact ih h
  | case3 text c s hlen hc =>
      cases h
      rw [List.length_append, List.length_singleton]
      omega

/-- Every character of a word but the first is held, and can be pushed back. -/
theorem Held.scan {p : Int → Bool} {k : Nat} {text text' : List Byte} {c : Int} {s' : Lex}
    (h : Held k s) (hdone : (scan p text c s).1 = .done text' s') :
    Held (k + text'.length - (text.length + 1)) s' := by
  fun_induction Parse.scan p text c s generalizing k with
  | case1 => cases hdone
  | case2 text c s hlen hc ih =>
      refine (ih (h.lgetc 0) hdone).mono ?_
      rw [List.length_append, List.length_singleton]
      omega
  | case3 text c s hlen hc =>
      cases hdone
      refine ((h.lgetc 0).lungetc _).mono ?_
      rw [List.length_append, List.length_singleton]
      omega

theorem lexQuotedOps_inBounds {quotec : Int} (hq : quotec = ch '\'' ∨ quotec = ch '"')
    (h : s.Bounded) : ∀ op ∈ lexQuotedOps quotec s, op.InBounds := by
  have hstate := ((held_tracks 0).quoted hq [] h.held).bounded
  refine List.forall_mem_append.2 ⟨quotedOps_inBounds hq (by decide) h, ?_⟩
  split
  · next s' heq =>
      rw [heq] at hstate
      exact lexErrorOps_inBounds _ hstate
  · simp

theorem lexWordOps_inBounds (c : Int) (h : s.Bounded) : ∀ op ∈ lexWordOps c s, op.InBounds := by
  have hstate := ((held_tracks 0).scan allowedInString [] c h.account).bounded
  rw [lexWordOps]
  split
  · refine List.forall_mem_append.2 ⟨scanOps_inBounds _ (by decide) h, ?_⟩
    split
    · simp
    · next s' heq =>
        rw [heq] at hstate
        exact lexErrorOps_inBounds _ hstate
    · next text s' heq => exact List.forall_mem_singleton.2 (buf_inBounds (scan_length heq))
  · simp

theorem unread_held {k : Nat} {bs : List Byte} (h : Held (k + bs.length) s) :
    Held k (bs.foldl (fun s b => lungetc (schar b) s) s) := by
  induction bs generalizing s with
  | nil => exact h
  | cons b bs ih => exact ih (Held.lungetc h _)

theorem unreadOps_inBounds {bs : List Byte} (hlen : bs.length < bufSize)
    (h : Held bs.length s) : ∀ op ∈ unreadOps bs s, op.InBounds := by
  induction bs generalizing s with
  | nil => simp [unreadOps]
  | cons b bs ih =>
      rw [List.length_cons] at hlen h
      exact List.forall_mem_cons.2 ⟨buf_inBounds hlen, List.forall_mem_cons.2
        ⟨lungetc_inBounds (h.mono (by omega)) _, ih (by omega) (h.lungetc _)⟩⟩

theorem lexNodigitsOps_inBounds {text : List Byte} (hlen : text.length < bufSize)
    (h : Held (text.length - 1) s) : ∀ op ∈ lexNodigitsOps text s, op.InBounds := by
  have htail : text.tail.reverse.length = text.length - 1 := by simp
  have hstate : (text.tail.reverse.foldl (fun s b => lungetc (schar b) s) s).Bounded := by
    refine (unread_held (k := 0) ?_).bounded
    rwa [htail, Nat.zero_add]
  simp only [lexNodigitsOps]
  refine List.forall_mem_append.2 ⟨unreadOps_inBounds ?_ ?_, List.forall_mem_cons.2
    ⟨buf_inBounds (by decide), ?_⟩⟩
  · rw [htail]
    omega
  · rwa [htail]
  · split
    · simp
    · exact lexWordOps_inBounds _ hstate

theorem lexNumberOps_inBounds (c : Int) (h : s.Bounded) :
    ∀ op ∈ lexNumberOps c s, op.InBounds := by
  have hstate := ((held_tracks 0).scan isdigit [] c h.account).bounded
  refine List.forall_mem_append.2 ⟨scanOps_inBounds _ (by decide) h, ?_⟩
  split
  · simp
  · next s' heq =>
      rw [heq] at hstate
      exact lexErrorOps_inBounds _ hstate
  · next text s' heq =>
      have hlen := scan_length heq
      have hback : ∀ op ∈ lexNodigitsOps text s', op.InBounds :=
        lexNodigitsOps_inBounds hlen ((h.held.scan heq).mono (by simp))
      rw [heq] at hstate
      refine List.forall_mem_cons.2 ⟨buf_inBounds (by decide), ?_⟩
      split
      · exact hback
      · split
        · refine List.forall_mem_cons.2 ⟨buf_inBounds hlen, ?_⟩
          split
          · simp
          · exact lexErrorOps_inBounds _ hstate
        · exact hback

theorem lexTokenOps_inBounds (c : Int) (h : s.Bounded) : ∀ op ∈ lexTokenOps c s, op.InBounds := by
  rw [lexTokenOps]
  split
  · next hq => exact lexQuotedOps_inBounds (by simpa using hq) h
  · split
    · exact lexNumberOps_inBounds c h
    · exact lexWordOps_inBounds c h

theorem lexStartOps_inBounds (h : s.Bounded) : ∀ op ∈ lexStartOps s, op.InBounds := by
  have hskip := ((held_tracks 0).skip isBlank h.account).1.bounded
  refine List.forall_mem_append.2 ⟨skipOps_inBounds _ h, ?_⟩
  split
  · exact skipOps_inBounds _ ⟨hskip.pushback, hskip.parsebuf⟩
  · simp

theorem Lex.Bounded.lexStart (h : s.Bounded) : (lexStart s).2.Bounded :=
  ((held_tracks 0).lexStart h.held).1.bounded

theorem Lex.Bounded.macroName (h : s.Bounded) (name : List Byte) :
    (macroName name s).state.Bounded :=
  ((held_tracks 0).macroName name h.account).bounded

theorem lexNameOps_inBounds (h : s.Bounded) : ∀ op ∈ lexNameOps s, op.InBounds :=
  List.forall_mem_append.2 ⟨lexStartOps_inBounds h, macroNameOps_inBounds 0 h.lexStart⟩

/-- The text of a macro is read from its first character on. -/
theorem Lex.Bounded.expand (h : s.Bounded) (val : CStr) :
    { s with parsebuf := some ⟨val, 0⟩ }.Bounded := by
  refine ⟨h.pushback, fun text i hbuf => ?_⟩
  cases hbuf
  exact ⟨Int.le_refl 0, Int.natCast_nonneg _⟩

/-- In a state with its indices in their arrays, every access of `yylex` is inside. -/
theorem yylexOps_inBounds (h : s.Bounded) : ∀ op ∈ yylexOps s, op.InBounds := by
  have hname : ∀ {s : Lex}, s.Bounded → (macroName [] (lexStart s).2).state.Bounded :=
    fun h => h.lexStart.macroName []
  fun_induction yylexOps s with
  | case1 s hc s' heq => exact lexNameOps_inBounds h
  | case2 s hc s' heq =>
      have hs' := hname h
      rw [heq] at hs'
      exact List.forall_mem_append.2 ⟨lexNameOps_inBounds h, lexErrorOps_inBounds _ hs'⟩
  | case3 s hc name s' heq hsym =>
      have hs' := hname h
      rw [heq] at hs'
      exact List.forall_mem_append.2 ⟨lexNameOps_inBounds h, lexErrorOps_inBounds _ hs'⟩
  | case4 s hc name s' heq val hsym ih =>
      have hs' := hname h
      rw [heq] at hs'
      exact List.forall_mem_append.2 ⟨lexNameOps_inBounds h, ih (hs'.expand val)⟩
  | case5 s hc =>
      exact List.forall_mem_append.2 ⟨lexStartOps_inBounds h, lexTokenOps_inBounds _ h.lexStart⟩

theorem lexToken_eof (s : Lex) : lexToken eof s = (.char 0, s) := by
  rw [lexToken, if_neg (by decide), if_neg (by decide), lexWord, if_neg (by decide),
    if_neg (by decide), if_pos rfl]

/-- After a token the macro text has been read at least up to its first character. -/
theorem yylex_held (h : s.Bounded) :
    (yylex s).2.Bounded ∧ ((yylex s).1 ≠ .char 0 → Held 1 (yylex s).2) := by
  have hname : ∀ {s : Lex}, s.Bounded → (macroName [] (lexStart s).2).state.Bounded :=
    fun h => h.lexStart.macroName []
  have herror : ∀ {s : Lex} (m : Message), s.Bounded → Held 1 (lexError m s).2 := by
    intro s m h
    have hnone : Held (1 + ([] : List Int).length) { yyerror m s with parsebuf := none } :=
      held_of_none rfl h.pushback
    have hskip := (held_tracks 1).findeol hnone
    exact hskip
  fun_induction yylex s with
  | case1 s hc s' heq =>
      have hs' := hname h
      rw [heq] at hs'
      exact ⟨hs', fun hne => absurd rfl hne⟩
  | case2 s hc s' heq =>
      have hs' := hname h
      rw [heq] at hs'
      exact ⟨(herror _ hs').bounded, fun _ => herror _ hs'⟩
  | case3 s hc name s' heq hsym =>
      have hs' := hname h
      rw [heq] at hs'
      exact ⟨(herror _ hs').bounded, fun _ => herror _ hs'⟩
  | case4 s hc name s' heq val hsym ih =>
      have hs' := hname h
      rw [heq] at hs'
      exact ih (hs'.expand val)
  | case5 s hc =>
      obtain ⟨hall, hone⟩ := (held_tracks 0).lexStart h.held
      refine ⟨((held_tracks 0).lexToken _ hall).bounded, fun hne => ?_⟩
      by_cases heof : (lexStart s).1 = eof
      · rw [heof, lexToken_eof] at hne
        exact absurd rfl hne
      · exact (held_tracks 1).lexToken _ (hone heof)

end InBounds

/-! ## The runs of the parser -/

/-- What is kept along a run: the newline of an `include` comes after a file name. -/
structure Fitting (p : State Token Val Yy) : Prop where
  accepting : p.accepting = true → top p.stack = tables.final
  bounded : p.client.lex.Bounded
  look : p.look = some .string → Held 1 p.client.lex
  name : Reducing tables p 15 → p.look = none ∧ Held 1 p.client.lex

section Runs

variable {fs : FileSystem} {p q : State Token Val Yy}

theorem InputKept.held {k : Nat} {s s' : Lex} (h : InputKept s s') (hs : Held k s) : Held k s' :=
  hs.same h.parsebuf h.pushback

theorem not_reducing_include {p : State Token Val Yy} (h : top p.stack ≠ afterName) :
    ¬Reducing tables p 15 :=
  fun hred => h (top_of_reduces_include hred.reduces)

theorem Fitting.erring (h : Fitting p) {x : Yy} (herr : Erring tables (client fs) p x) :
    x.lex.Bounded ∧ (p.look = some .string → Held 1 x.lex) :=
  have hkept := erring_inputKept herr
  ⟨(hkept.held h.bounded.held).bounded, fun hlook => hkept.held (h.look hlook)⟩

theorem Fitting.action (h : Fitting p) {n : Nat} {v : Val} {x : Yy} (hred : Reducing tables p n)
    (hact : (client fs).action n (p.stack.map Prod.snd) p.client = .ok v x) :
    x.lex.Bounded ∧ (p.look = some .string → Held 1 x.lex) := by
  by_cases hn : n = 15
  · subst hn
    obtain ⟨hlook, hheld⟩ := h.name hred
    obtain ⟨name, file, -, hlex⟩ := include_ok hact
    have hheld' : Held 1 { p.client.lex with file, prev := p.client.lex.file :: p.client.lex.prev } :=
      hheld.same rfl rfl
    rw [hlex]
    exact ⟨(hheld'.lungetc _).bounded, fun hstring => by simp [hlook] at hstring⟩
  · have hkept := action_ok_inputKept hn hact
    exact ⟨(hkept.held h.bounded.held).bounded, fun hlook => hkept.held (h.look hlook)⟩

theorem Fitting.step (h : Fitting p) (hstep : step tables (client fs) p = .run q) : Fitting q := by
  have hfinal : tables.final ≠ afterName := by decide
  cases step_effect hstep with
  | fetch hcalls =>
      obtain ⟨hbounded, hheld⟩ := yylex_held h.bounded
      refine ⟨h.accepting, hbounded, fun hstring => hheld ?_, fun hred => ?_⟩
      · rw [clamp_eq_string (Option.some.inj hstring)]
        nofun
      · rcases hcalls.2 with hacc | hdef
        · exact absurd (hacc.symm.trans hred.accepting) Bool.noConfusion
        · rcases hred.rule with hdef' | ⟨-, a, -, -, hreduce⟩
          · exact absurd (hdef.symm.trans hdef') nofun
          · exact absurd rfl (reduce_ne_include hreduce)
  | resume hacc hlook =>
      refine ⟨nofun, h.bounded, h.look, fun hred => absurd hred (not_reducing_include ?_)⟩
      rw [h.accepting hacc]
      exact hfinal
  | shift hacc hdef hlook hshift =>
      refine ⟨fun hacc' => absurd (hacc.symm.trans hacc') Bool.noConfusion, h.bounded, nofun,
        fun hred => ⟨rfl, h.look ?_⟩⟩
      have htop := top_of_reduces_include hred.reduces
      subst htop
      rw [hlook, (shift_afterName hshift).2]
  | goal hred hact =>
      obtain ⟨hbounded, hlook⟩ := h.action hred hact
      exact ⟨fun _ => rfl, hbounded, hlook, fun hred' => absurd hred' (not_reducing_include hfinal)⟩
  | reduce hred hact =>
      obtain ⟨hbounded, hlook⟩ := h.action hred hact
      exact ⟨fun hacc => absurd (hred.accepting.symm.trans hacc) Bool.noConfusion, hbounded, hlook,
        fun hred' => absurd hred' (not_reducing_include (goto_ne _ _).2)⟩
  | recover herr hflag hpop =>
      obtain ⟨hbounded, hlook⟩ := h.erring herr
      obtain ⟨st', hst'⟩ := popToError_shiftError hpop
      refine ⟨fun hacc => absurd (herr.accepting.symm.trans hacc) Bool.noConfusion, hbounded, hlook,
        fun hred' => absurd hred' (not_reducing_include ?_)⟩
      rw [shiftError_eq hst']
      exact show (7 : Nat) ≠ afterName by decide
  | discard herr =>
      obtain ⟨hbounded, -⟩ := h.erring herr
      refine ⟨h.accepting, hbounded, nofun, fun hred => ⟨rfl, (erring_inputKept herr).held ?_⟩⟩
      have htop := top_of_reduces_include hred.reduces
      refine (h.name ⟨herr.accepting, .inl ?_⟩).2
      rw [show top p.stack = afterName from htop]
      rfl

theorem zero_ne_afterName : 0 ≠ afterName := by decide

theorem fitting_initial {y : Yy} (h : y.lex.Bounded) : Fitting (.initial y) :=
  ⟨nofun, h, nofun, fun hred => absurd hred (not_reducing_include zero_ne_afterName)⟩

theorem Fitting.reaches (h : Fitting p) (hq : Reaches tables (client fs) p q) : Fitting q :=
  hq.invariant (fun _ _ h hstep => h.step hstep) h

/-- The last step of a run treats an error or touches nothing. -/
theorem Fitting.finish (h : Fitting p) {status : Status} {y : Yy}
    (hdone : Yacc.step tables (client fs) p = .done status y) : y.lex.Bounded := by
  cases step_finish hdone with
  | same => exact h.bounded
  | @overflow x hx =>
      have hbounded : x.lex.Bounded := by
        cases hx with
        | shift => exact h.bounded
        | reduce hred hact => exact (h.action hred hact).1
        | error herr => exact (h.erring herr).1
      exact ⟨hbounded.pushback, hbounded.parsebuf⟩
  | error herr => exact (h.erring herr).1

theorem popfile_parsebuf {s s' : Lex} (h : popfile s = some s') :
    s'.parsebuf = s.parsebuf ∧ s'.pushback = s.pushback := by
  rw [popfile.eq_def] at h
  split at h
  · cases h
  · cases h
    exact ⟨rfl, rfl⟩

theorem Held.popfile {k : Nat} {s : Lex} (h : Held k s) : Held k ((popfile s).getD s) := by
  cases hpop : Parse.popfile s with
  | none => exact h
  | some s' =>
      obtain ⟨hbuf, hpush⟩ := popfile_parsebuf hpop
      exact h.same hbuf hpush

/-- Between two calls of `parse_config` the indices are inside their arrays. -/
theorem Parsed.bounded {g : Globals} (h : Parsed g) : g.yy.lex.Bounded := by
  induction h with
  | initial symhead => exact ⟨Nat.zero_lt_succ _, nofun⟩
  | @call fs fuel filename g g' conf hg hparse ih =>
      rcases parseConfig_returned hparse with rfl | ⟨file, q, status, y, -, hq, hdone, hg'⟩
      · exact ih
      · have hstart : (g.start file).lex.Bounded := ⟨ih.pushback, ih.parsebuf⟩
        have hy := ((fitting_initial hstart).reaches hq).finish hdone
        rw [hg']
        exact hy.held.popfile.bounded

/-- A state of a run of `yyparse`, in some call of `parse_config`. -/
def InParse (fs : FileSystem) (p : State Token Val Yy) : Prop :=
  ∃ g filename file, Parsed g ∧ pushfile fs g.files filename false = some file ∧
    Reaches tables (client fs) (.initial (g.start file)) p

theorem InParse.fitting (h : InParse fs p) : Fitting p := by
  obtain ⟨g, filename, file, hg, -, hp⟩ := h
  have hstart : (g.start file).lex.Bounded := ⟨hg.bounded.pushback, hg.bounded.parsebuf⟩
  exact (fitting_initial hstart).reaches hp

/-- The arrays of the lexer are safe. In every state of a parse the pushback index and the
index in the macro text are inside their arrays, everything the next call of `yylex` would
do stays inside them, and so does the newline of an `include`. -/
theorem lexer_stays_in_bounds (h : InParse fs p) :
    p.client.lex.Bounded ∧ (∀ op ∈ yylexOps p.client.lex, op.InBounds) ∧
      (Reducing tables p 15 → ∀ file,
        (LexOp.lungetc (ch '\n')
          { p.client.lex with file, prev := p.client.lex.file :: p.client.lex.prev }).InBounds) := by
  refine ⟨h.fitting.bounded, yylexOps_inBounds h.fitting.bounded, fun hred file => ?_⟩
  refine lungetc_inBounds ?_ _
  exact (h.fitting.name hred).2.same rfl rfl

/-- A configuration whose `include` takes its file name from the middle of a macro. -/
def namedInMacro : FileSystem where
  stdin := asciiBytes "a \"'F' b\"\ninclude $a\n"
  inode _ := none
  uid := 0
  openMax := none

/-- There the newline steps back over the quote that ends the name. -/
theorem lexer_stays_in_macro :
    ∃ p : State Token Val Yy, InParse namedInMacro p ∧
      p.client.lex.parsebuf = some ⟨CStr.lit "'F' b", 3⟩ ∧ Reducing tables p 15 ∧
      (LexOp.lungetc (ch '\n') { p.client.lex with
        file := ⟨CStr.lit "F", [], 1, 0⟩
        prev := p.client.lex.file :: p.client.lex.prev }).InBounds := by
  have hsteps : (steps tables (client namedInMacro) 16
      (.initial ((Globals.initial []).start ⟨CStr.lit "stdin", namedInMacro.stdin, 1, 0⟩))).map
        (fun p => (p.accepting, top p.stack, p.client.lex.parsebuf)) =
      some (false, afterName, some ⟨CStr.lit "'F' b", 3⟩) := by decide +kernel
  obtain ⟨p, hp, heq⟩ := Option.map_eq_some_iff.1 hsteps
  simp only [Prod.mk.injEq] at heq
  obtain ⟨hacc, htop, hbuf⟩ := heq
  have hparse : InParse namedInMacro p :=
    ⟨.initial [], CStr.lit "-", _, .initial [], rfl, reaches_of_steps hp⟩
  have hred : Reducing tables p 15 := ⟨hacc, .inl (by rw [htop]; rfl)⟩
  exact ⟨p, hparse, hbuf, hred, (lexer_stays_in_bounds hparse).2.2 hred _⟩

end Runs

end Ifconfigd.Parse
