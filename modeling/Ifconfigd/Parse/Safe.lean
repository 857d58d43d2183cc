import Ifconfigd.Lib.Yacc.Typing
import Ifconfigd.Parse.Again

/-!
# The parser does not crash

The actions store options through global pointers that are null outside a section, and
take the members of a union `yylval` without a look at the token they came with. Neither
goes wrong on any input: a section's pointers are set wherever its options are reduced,
and the state below a value tells which member of the union was set.
-/

namespace Ifconfigd.Parse

open CLib Yacc

/-! ## The kinds of values -/

/-- The members of `yylval` an action takes. -/
inductive ValKind
  | string
  | number
  deriving DecidableEq

def Val.Is : ValKind → Val → Prop
  | .string, v => ∃ s, v = .string s
  | .number, v => ∃ n, v = .number n

def Token.kind : Token → Option ValKind
  | .string => some .string
  | .number => some .number
  | _ => none

def Nonterm.kind : Nonterm → Option ValKind
  | .stringSeq => some .string
  | .yesno => some .number
  | _ => none

/-- The states entered by a number or by `yesno`. -/
def numberStates : List Nat := [18, 84, 86, 98, 101, 103, 104]

/-- The kind of the values beside a state, if some action takes them. -/
def kindAt (st : Nat) : Option ValKind :=
  if st ∈ numberStates then some .number
  else if st ∈ valued then some .string
  else none

/-- The rules whose action takes a number. -/
def numberRules : List Nat := [19, 35, 37, 50, 53, 55, 56]

/-- The kind of the values a rule takes: all of its values are of one. -/
def kindTaken (n : Nat) : ValKind := if n ∈ numberRules then .number else .string

/-- A state of a kind is entered by symbols of that kind only, and a rule finds what it
takes. -/
def kindsFit : Bool :=
  (List.range rows.length).all fun st =>
    ((row st).shifts.all fun e => kindAt e.2 = none || kindAt e.2 = e.1.kind) &&
      ((row st).error.all fun st' => kindAt st' = none) &&
      ((row st).gotos.all fun e => kindAt e.2 = none || kindAt e.2 = e.1.kind) &&
      ((reductions st).eraseDups.all fun n => (List.range (reads n)).all fun i =>
        (below i [st]).all fun st' => kindAt st' = some (kindTaken n))

theorem kindsFit_eq : kindsFit = true := by decide +kernel

/-- The check of `kindsFit` for one state; a state beyond the table has an empty row. -/
theorem kindsFit_of (st : Nat) :
    (∀ e ∈ (row st).shifts, kindAt e.2 = none ∨ kindAt e.2 = e.1.kind) ∧
      (∀ st' ∈ (row st).error, kindAt st' = none) ∧
      (∀ e ∈ (row st).gotos, kindAt e.2 = none ∨ kindAt e.2 = e.1.kind) ∧
      ∀ n ∈ reductions st, ∀ i < reads n, ∀ st' ∈ below i [st],
        kindAt st' = some (kindTaken n) := by
  by_cases hst : st < rows.length
  · have hall := List.all_eq_true.1 kindsFit_eq st (List.mem_range.2 hst)
    simp only [Bool.and_eq_true, List.all_eq_true, Bool.or_eq_true, decide_eq_true_eq,
      List.mem_range, Option.all_eq_true, List.mem_eraseDups] at hall
    obtain ⟨⟨⟨hshift, herror⟩, hgoto⟩, htaken⟩ := hall
    exact ⟨hshift, herror, hgoto, htaken⟩
  · have hrow : row st = ⟨none, [], [], none, []⟩ := List.getD_eq_default _ _ (by omega)
    simp [reductions, hrow]

/-! ## Values of tokens -/

/-- The value of a string or a number is set with the token. -/
def Carried (r : Token × Lex) : Prop := ∀ k, r.1.kind = some k → r.2.val.Is k

theorem Carried.of_none {r : Token × Lex} (h : r.1.kind = none) : Carried r := by
  intro k hk
  rw [h] at hk
  cases hk

theorem Token.kind_eq_string {a : Token} (h : a.kind = some .string) : a = .string := by
  cases a <;> cases h
  rfl

theorem Token.kind_eq_number {a : Token} (h : a.kind = some .number) : a = .number := by
  cases a <;> cases h
  rfl

theorem wordToken_carried (text : List Byte) (s : Lex) : Carried (wordToken text s) := by
  rw [wordToken]
  split
  · intro k h
    cases h
    exact ⟨_, rfl⟩
  · next hne =>
      intro k h
      cases k with
      | string => exact absurd (Token.kind_eq_string h) hne
      | number => exact absurd (Token.kind_eq_number h) (lookup_ne_number _)

theorem lexWord_carried (c : Int) (s : Lex) : Carried (lexWord c s) := by
  rw [lexWord]
  split
  · split
    · exact .of_none rfl
    · exact .of_none rfl
    · exact wordToken_carried _ _
  · split
    · exact .of_none rfl
    · split <;> exact .of_none rfl

theorem lexNodigits_carried (text : List Byte) (s : Lex) : Carried (lexNodigits text s) := by
  rw [lexNodigits]
  split
  · exact .of_none rfl
  · exact lexWord_carried _ _

theorem lexQuoted_carried (quotec : Int) (s : Lex) : Carried (lexQuoted quotec s) := by
  rw [lexQuoted]
  split
  · exact .of_none rfl
  · exact .of_none rfl
  · intro k h
    cases h
    exact ⟨_, rfl⟩

theorem lexNumber_carried (c : Int) (s : Lex) : Carried (lexNumber c s) := by
  rw [lexNumber]
  split
  · exact .of_none rfl
  · exact .of_none rfl
  · split
    · exact lexNodigits_carried _ _
    · split
      · split
        · intro k h
          cases h
          exact ⟨_, rfl⟩
        · exact .of_none rfl
      · exact lexNodigits_carried _ _

theorem lexToken_carried (c : Int) (s : Lex) : Carried (lexToken c s) := by
  rw [lexToken]
  split
  · exact lexQuoted_carried _ _
  · split
    · exact lexNumber_carried _ _
    · exact lexWord_carried _ _

theorem yylex_carried (s : Lex) : Carried (yylex s) := by
  fun_induction yylex s with
  | case1 => exact .of_none rfl
  | case2 => exact .of_none rfl
  | case3 => exact .of_none rfl
  | case4 _ _ _ _ _ _ _ ih => exact ih
  | case5 => exact lexToken_carried _ _

/-! ## Values on the stack -/

/-- A value that can stand beside a state. -/
def OfKind (st : Nat) (v : Val) : Prop := ∀ k, kindAt st = some k → v.Is k

/-- `yylval` is the value of the token ahead. -/
def Ahead (look : Option Token) (y : Yy) : Prop :=
  ∀ a ∈ look, ∀ k, a.kind = some k → y.lex.val.Is k

theorem shift_kind {st st' : Nat} {a : Token} {k : ValKind} (h : tables.shift st a = some st')
    (hk : kindAt st' = some k) : a.kind = some k := by
  rcases (kindsFit_of st).1 (a, st') (mem_of_entry h) with hnone | heq
  · rw [hnone] at hk
    cases hk
  · exact heq.symm.trans hk

theorem goto_kind {n st : Nat} {k : ValKind} (h : kindAt (tables.goto n st) = some k) :
    k = .number ∧ n ∈ [13, 14] ∨ k = .string ∧ n ∈ [16, 17] := by
  have hlhs : (rules.getD n (.grammar, 0)).1.kind = some k := by
    change kindAt ((entry (row st).gotos (rules.getD n (.grammar, 0)).1).getD 0) = some k at h
    cases hentry : entry (row st).gotos (rules.getD n (.grammar, 0)).1 with
    | none =>
        rw [hentry] at h
        cases h
    | some st' =>
        rw [hentry] at h
        rcases (kindsFit_of st).2.2.1 (_, st') (mem_of_entry hentry) with hnone | heq
        · exact absurd (hnone.symm.trans h) (Option.some_ne_none k).symm
        · exact heq.symm.trans h
  by_cases hn : n < rules.length
  · have hall : ∀ n < rules.length,
        (rules.getD n (.grammar, 0)).1.kind = none ∨
          (rules.getD n (.grammar, 0)).1.kind = some .number ∧ n ∈ [13, 14] ∨
          (rules.getD n (.grammar, 0)).1.kind = some .string ∧ n ∈ [16, 17] := by
      decide
    rw [← Option.some_inj, ← Option.some_inj (a := k), ← hlhs]
    rcases hall n hn with hnone | hnumber | hstring
    · rw [hnone] at hlhs
      cases hlhs
    · exact .inl hnumber
    · exact .inr hstring
  · rw [List.getD_eq_default _ _ (by omega)] at hlhs
    cases hlhs

/-- What a rule takes is on the stack. -/
theorem value_taken {stack : List (Nat × Val)} (hpath : Path Edge stack)
    (hkinds : ∀ e ∈ stack, OfKind e.1 e.2) {n i : Nat} (hn : tables.Reduces (top stack) n)
    (hi : i < reads n) : ∃ v, (stack.map Prod.snd)[i]? = some v ∧ v.Is (kindTaken n) := by
  obtain ⟨hlt, -⟩ := lt_length_of_reads hpath hn hi
  have hbelow := mem_below hpath (Nat.le_of_lt hlt) (List.mem_singleton.2 rfl)
  have hkind := (kindsFit_of _).2.2.2 n (mem_reductions hn) i hi _ hbelow
  rw [List.drop_eq_getElem_cons hlt] at hkind
  refine ⟨stack[i].2, ?_, hkinds _ (List.getElem_mem hlt) _ hkind⟩
  rw [List.getElem?_map, List.getElem?_eq_getElem hlt]
  rfl

/-! ## Actions -/

/-- The values the action of a rule takes are there. -/
def Supplied (n : Nat) (vs : List Val) : Prop :=
  ∀ i < reads n, ∃ v, vs[i]? = some v ∧ v.Is (kindTaken n)

section Actions

variable {n i : Nat} {vs : List Val} {y : Yy}

theorem ok_ne_crash {v : Val} : (.ok v y : Outcome Val Yy) ≠ .crash := by
  intro h
  cases h

theorem Supplied.withString (h : Supplied n vs) (hi : i < reads n) (hn : kindTaken n = .string)
    {k : CStr → Outcome Val Yy} (hk : ∀ s, k s ≠ .crash) : withString vs i k ≠ .crash := by
  obtain ⟨v, hv, hkind⟩ := h i hi
  rw [hn] at hkind
  obtain ⟨s, rfl⟩ := hkind
  rw [Parse.withString, hv]
  exact hk s

theorem Supplied.withNumber (h : Supplied n vs) (hi : i < reads n) (hn : kindTaken n = .number)
    {k : Int → Outcome Val Yy} (hk : ∀ m, k m ≠ .crash) : withNumber vs i k ≠ .crash := by
  obtain ⟨v, hv, hkind⟩ := h i hi
  rw [hn] at hkind
  obtain ⟨m, rfl⟩ := hkind
  rw [Parse.withNumber, hv]
  exact hk m

theorem withPtr_ne_crash {p : Option Nat} (hp : p ≠ none) {k : Nat → Outcome Val Yy}
    (hk : ∀ i, k i ≠ .crash) : withPtr p k ≠ .crash := by
  cases p with
  | none => exact absurd rfl hp
  | some i => exact hk i

theorem actInclude_ne_crash (fs : FileSystem) (v : Val) (name : CStr) :
    actInclude fs v name y ≠ .crash := by
  rw [actInclude]
  split <;> intro h <;> cases h

theorem actGlobal_ne_crash (v : Val) (m : Int) : actGlobal v m y ≠ .crash := by
  rw [actGlobal]
  split <;> intro h <;> cases h

theorem actNetwork_ne_crash (v : Val) (name : CStr) : actNetwork v name y ≠ .crash := by
  rw [actNetwork]
  split <;> intro h <;> cases h

theorem actEthernetDhcp_ne_crash (hp : y.ether ≠ none) (v : Val) (yes : Int) :
    actEthernetDhcp v yes y ≠ .crash := by
  simp only [actEthernetDhcp]
  split
  · split <;> exact withPtr_ne_crash hp fun _ => ok_ne_crash
  · exact withPtr_ne_crash hp fun _ => ok_ne_crash

theorem actWirelessDhcp_ne_crash (hp : y.wlan ≠ none) (v : Val) (yes : Int) :
    actWirelessDhcp v yes y ≠ .crash := by
  simp only [actWirelessDhcp]
  split <;> exact withPtr_ne_crash hp fun _ => ok_ne_crash

theorem action_ne_crash (hvs : Supplied n vs) (h : Ready n y) (fs : FileSystem) (v : Val) :
    action fs n vs v y ≠ .crash := by
  unfold action
  split
  all_goals first
    | exact ok_ne_crash
    | exact hvs.withString (by decide) rfl fun _ =>
        withPtr_ne_crash (h.ether (by decide)).1 fun _ => ok_ne_crash
    | exact hvs.withString (by decide) rfl fun _ =>
        withPtr_ne_crash (h.wlan (by decide)).1 fun _ => ok_ne_crash
    | exact hvs.withString (by decide) rfl fun _ =>
        withPtr_ne_crash (h.wlan (by decide)).2 fun _ => ok_ne_crash
    | exact hvs.withString (by decide) rfl fun _ =>
        withPtr_ne_crash (h.static (by decide)) fun _ => ok_ne_crash
    | exact hvs.withString (by decide) rfl fun _ =>
        withPtr_ne_crash (h.network (by decide)) fun _ => ok_ne_crash
    | exact hvs.withNumber (by decide) rfl fun _ =>
        withPtr_ne_crash (h.ether (by decide)).1 fun _ => ok_ne_crash
    | exact hvs.withNumber (by decide) rfl fun _ =>
        withPtr_ne_crash (h.wlan (by decide)).1 fun _ => ok_ne_crash
    | exact hvs.withString (by decide) rfl fun _ =>
        hvs.withString (by decide) rfl fun _ => ok_ne_crash
    | exact hvs.withString (by decide) rfl fun _ => actInclude_ne_crash fs _ _
    | exact hvs.withNumber (by decide) rfl fun _ => actGlobal_ne_crash _ _
    | exact hvs.withString (by decide) rfl fun _ => actNetwork_ne_crash _ _
    | exact hvs.withNumber (by decide) rfl fun _ =>
        actEthernetDhcp_ne_crash (h.ether (by decide)).1 _ _
    | exact hvs.withNumber (by decide) rfl fun _ =>
        actWirelessDhcp_ne_crash (h.wlan (by decide)).1 _ _

/-- The values actions leave for `yesno` and `string`. -/
theorem made_kind (hvs : Supplied n vs) {fs : FileSystem} {v : Val} {z : Yy} {k : ValKind}
    (hn : k = .number ∧ n ∈ [13, 14] ∨ k = .string ∧ n ∈ [16, 17])
    (hact : action fs n vs (defaultVal n vs) y = .ok v z) : v.Is k := by
  rcases hn with ⟨rfl, hn⟩ | ⟨rfl, hn⟩
  · rw [List.mem_pair] at hn
    rcases hn with rfl | rfl
    · cases hact
      exact ⟨1, rfl⟩
    · cases hact
      exact ⟨0, rfl⟩
  · rw [List.mem_pair] at hn
    rcases hn with rfl | rfl
    · simp only [action, withString] at hact
      split at hact
      · split at hact
        · cases hact
          exact ⟨_, rfl⟩
        · cases hact
      · cases hact
    · -- `string : STRING` has no action of its own: its value is that of the token.
      obtain ⟨w, hw, s, rfl⟩ := hvs 0 (by decide)
      cases hact
      refine ⟨s, ?_⟩
      rw [defaultVal, if_neg (by decide), List.getD_eq_getElem?_getD]
      change vs[0]?.getD .none = _
      rw [hw]
      rfl

end Actions

/-! ## Runs -/

theorem typing (fs : FileSystem) : Typing tables (client fs) Edge OfKind Ahead where
  final v k hk := by cases hk
  shift st a st' y hshift hahead k hk := hahead a rfl k (shift_kind hshift hk)
  shiftError st st' v h k hk := by
    rw [(kindsFit_of st).2.1 st' h] at hk
    cases hk
  goto stack n y v z hpath hn hkinds hact k hk :=
    made_kind (fun i hi => value_taken hpath hkinds hn hi) (goto_kind hk) hact
  forget look y _ a ha := by cases ha
  lex y _ a ha k hk := by
    cases ha
    apply yylex_carried y.lex k
    revert hk
    change (yylex y.lex).1.clamp.kind = some k → _
    cases (yylex y.lex).1 <;> exact id
  action look n vs y h := by
    refine (action_lexEffect fs n vs _ y).mono fun z hz a ha k hk => ?_
    rw [hz.val]
    exact h a ha k hk
  syntaxError look y h := h

/-- No input makes the parser follow a null pointer or take a value that was not set. -/
theorem parse_never_crashes (fs : FileSystem) (fuel : Nat) (filename : CStr) (g : Globals) :
    parseConfig fs fuel filename g ≠ some .crashed := by
  intro h
  rw [parseConfig.eq_def] at h
  split at h
  · cases h
  · next file hfile =>
      split at h
      · cases h
      · next y hrun =>
          obtain ⟨q, hreach, hdone⟩ := exists_reaches_of_run hrun
          obtain ⟨n, hred, hcrash⟩ := crashing_of_done hdone
          have htyped : Typed OfKind Ahead q := by
            apply (typing fs).reaches (sound Val) hreach rfl
            intro a ha
            cases ha
          have hpath : Path Edge q.stack := hreach.path (sound Val) trivial
          refine action_ne_crash ?_ (ready_of_reducing hreach hred) fs _ hcrash
          exact fun i hi => value_taken hpath htyped.stack hred.reduces hi
      · cases h

end Ifconfigd.Parse
