import Ifconfigd.Lib.WordTable
import Ifconfigd.Lib.Yacc.Trace
import Ifconfigd.Parse.Invariants
import Ifconfigd.Parse.Symbols

/-!
# The names the lexer resolves

A word is looked up in the table of keywords by a binary search, and a macro in the list
`symhead`. What a macro stands for in a state of a parse is settled by the definitions of
the command line, of which the first one of a name counts, and by the assignments the parse
has reduced so far, of which the last one does.
-/

namespace Ifconfigd.Parse

open CLib Yacc

/-! ## Keywords -/

/-- `kw_cmp`. -/
def kwCmp (k : CStr) (e : CStr × Token) : Int := strcmp k e.1

/-- The call of `bsearch` in `lookup`, with what is returned for its result. -/
def lookupSearch (s : CStr) : Token :=
  match bsearch (kwCmp s) keywords with
  | some p => p.2
  | none => .string

/-- The search finds the keyword if there is one, for every word. -/
theorem lookup_eq_search (s : CStr) : lookup s = lookupSearch s := by
  rw [lookup, lookupSearch]
  have hfind : bsearch (kwCmp s) keywords = keywords.find? fun e => e.1 = s :=
    bsearch_words keywords_sorted s
  rw [hfind]
  cases keywords.find? fun e => e.1 = s <;> rfl

/-! ## Definitions on the command line -/

/-- `strrchr`: what begins at the last `c`. -/
def strrchr (c : Byte) : List Byte → Option (List Byte)
  | [] => none
  | b :: rest =>
      match strrchr c rest with
      | some found => some found
      | none => if b = c then some (b :: rest) else none

theorem strrchr_eq_none_iff {c : Byte} {bytes : List Byte} :
    strrchr c bytes = none ↔ c ∉ bytes := by
  induction bytes with
  | nil => simp [strrchr]
  | cons b rest ih =>
      rw [strrchr, List.mem_cons, not_or, ← ih]
      cases strrchr c rest with
      | some found => simp
      | none => simp [eq_comm]

theorem strrchr_append {c : Byte} (before : List Byte) {after : List Byte} (h : c ∉ after) :
    strrchr c (before ++ c :: after) = some (c :: after) := by
  induction before with
  | nil => rw [List.nil_append, strrchr, strrchr_eq_none_iff.2 h, if_pos rfl]
  | cons b before ih => rw [List.cons_append, strrchr, ih]

/-- `cmdline_symset` on the list `symhead`; `none` is the return value -1. -/
def cmdlineSymset (s : CStr) (symhead : List Sym) : Option (List Sym) :=
  match strrchr 61 s.bytes with
  | none => none
  | some val =>
      let len := s.bytes.length - val.length + 1
      some (symset (s.strlcpy len) (CStr.read val.tail) true symhead)

/-- The argument is of the form `nam=val`, where the value goes from the last `=` on. -/
def Defines (s nam val : CStr) : Prop :=
  s.bytes = nam.bytes ++ 61 :: val.bytes ∧ 61 ∉ val.bytes

theorem cmdlineSymset_of_defines {s nam val : CStr} (h : Defines s nam val) (t : List Sym) :
    cmdlineSymset s t = some (symset nam val true t) := by
  obtain ⟨hbytes, hval⟩ := h
  have hnam : s.strlcpy (s.bytes.length - (61 :: val.bytes).length + 1) = nam := by
    apply CStr.ext
    change s.bytes.take (s.bytes.length - (61 :: val.bytes).length + 1 - 1) = nam.bytes
    rw [Nat.add_sub_cancel, hbytes, List.length_append, Nat.add_sub_cancel, List.take_left]
  rw [cmdlineSymset, hbytes, strrchr_append _ hval, ← hbytes]
  simp only [hnam, List.tail_cons, CStr.read_bytes]

/-- `symhead` after the definitions of a command line, if all are accepted. -/
def commandLine (args : List CStr) : Option (List Sym) :=
  args.foldlM (fun t s => cmdlineSymset s t) []

/-- The calls of `symset` that make the definitions. -/
def fixing (defs : List (CStr × CStr)) : List SymCall := defs.map fun d => .set d.1 d.2 true

theorem commandLine_eq {args : List CStr} {defs : List (CStr × CStr)}
    (h : List.Forall₂ (fun s d => Defines s d.1 d.2) args defs) :
    commandLine args = some (symTable (fixing defs)) := by
  have hfold : ∀ t, args.foldlM (fun t s => cmdlineSymset s t) t =
      some ((fixing defs).foldl (fun t call => call.exec t) t) := by
    induction h with
    | nil => exact fun t => rfl
    | @cons s d args defs hd _ ih =>
        intro t
        rw [List.foldlM_cons, cmdlineSymset_of_defines hd]
        exact ih _
  exact hfold []

/-! ## Assignments in the file -/

/-- The assignment a reduction makes. -/
def assignNote (n : Nat) (vs : List Val) (_ : Yy) : List (CStr × CStr) :=
  match n, vs with
  | 18, .string val :: .string nam :: _ => [(nam, val)]
  | _, _ => []

/-- The calls of `symset` that make the assignments. -/
def setting (assigned : List (CStr × CStr)) : List SymCall :=
  assigned.map fun d => .set d.1 d.2 false

theorem LexEffect.symhead {fs : FileSystem} {n : Nat} {y z : Yy} (h : LexEffect fs n y z)
    (hn : n ≠ 18) : z.lex.symhead = y.lex.symhead := by
  cases h with
  | same hlex => rw [hlex]
  | report m hlex =>
      rw [hlex]
      rfl
  | grammarError _ hlex => rw [hlex]
  | «include» _ name nfile _ hlex =>
      rw [hlex]
      exact (lexKeeps_symhead y.lex.symhead).lungetc _ _ rfl
  | varset hvarset => exact absurd hvarset hn

section Run

variable {n : Nat} {vs : List Val} {v w : Val} {y z : Yy}

theorem action_symhead (fs : FileSystem) (hact : action fs n vs v y = .ok w z) :
    z.lex.symhead = (setting (assignNote n vs y)).foldl (fun t call => call.exec t)
      y.lex.symhead := by
  by_cases hn : n = 18
  · subst hn
    simp only [action, withString] at hact
    split at hact
    · next nam hnam =>
        split at hact
        · next val hval =>
            cases hact
            obtain ⟨rest, rfl⟩ : ∃ rest, vs = .string val :: .string nam :: rest := by
              cases vs with
              | nil => cases hval
              | cons a vs =>
                  cases vs with
                  | nil => cases hnam
                  | cons b rest =>
                      cases hval
                      cases hnam
                      exact ⟨rest, rfl⟩
            rfl
        · cases hact
    · cases hact
  · have hnote : assignNote n vs y = [] := by
      unfold assignNote
      split
      · exact absurd rfl hn
      · rfl
    have heffect := action_lexEffect fs n vs v y
    rw [hact] at heffect
    rw [hnote]
    exact heffect.symhead hn

theorem error_symhead (fs : FileSystem) (hact : action fs n vs v y = .error z) :
    z.lex.symhead = y.lex.symhead := by
  have heffect := action_lexEffect fs n vs v y
  rw [hact] at heffect
  refine heffect.symhead ?_
  rintro rfl
  simp only [action, withString] at hact
  split at hact
  · split at hact <;> cases hact
  · cases hact

/-- The table of a run is that of its history. -/
theorem symhead_of_trace {fs : FileSystem} {calls : List SymCall}
    (hy : y.lex.symhead = symTable calls) {P : State Token Val Yy → Prop}
    {assigned : List (CStr × CStr)} {q : State Token Val Yy}
    (htrace : Trace tables (client fs) assignNote P (.initial y) assigned q) :
    q.client.lex.symhead = symTable (calls ++ setting assigned) := by
  refine htrace.holds (K := fun ls z => z.lex.symhead = symTable (calls ++ setting ls))
    ?_ ?_ ?_ ?_ ?_
  · change y.lex.symhead = symTable (calls ++ [])
    rw [List.append_nil]
    exact hy
  · intro ls z hz
    exact (lexKeeps_symhead _).yylex hz
  · exact fun ls z hz => hz
  · intro ls n vs z z' hz hact
    exact (error_symhead fs hact).trans hz
  · intro ls r r' n v _ _ _ _ hact hr
    rw [action_symhead fs hact, hr]
    simp [symTable, setting, List.foldl_append]

end Run

/-! ## What a macro stands for -/

section Meaning

variable {x : CStr} {defs assigned : List (CStr × CStr)}

/-- The value the first of the pairs gives to a name. -/
def firstOf (x : CStr) (defs : List (CStr × CStr)) : Option CStr :=
  (defs.find? fun d => d.1 = x).map Prod.snd

theorem findSome_set (persist : Bool) {f : SymCall → Option CStr}
    (hf : ∀ nam val, f (.set nam val persist) = if nam = x then some val else none) :
    (defs.map fun d => SymCall.set d.1 d.2 persist).findSome? f = firstOf x defs := by
  rw [firstOf]
  induction defs with
  | nil => rfl
  | cons d defs ih =>
      rw [List.map_cons, List.findSome?_cons, hf, List.find?_cons]
      by_cases hd : d.1 = x
      · simp [hd]
      · simp [hd, ih]

theorem firstFixed_history :
    firstFixed x (fixing defs ++ setting assigned) = firstOf x defs := by
  rw [firstFixed, List.findSome?_append, fixing, findSome_set true, setting]
  · rw [List.findSome?_map, List.findSome?_eq_none_iff.2, Option.or_none]
    intro d _
    simp [SymCall.fixes]
  · intro nam val
    simp [SymCall.fixes]

theorem lastSet_history :
    lastSet x (fixing defs ++ setting assigned) =
      (firstOf x assigned.reverse).or (firstOf x defs.reverse) := by
  rw [lastSet, List.reverse_append, List.findSome?_append, fixing, setting, ← List.map_reverse,
    ← List.map_reverse, findSome_set false, findSome_set true]
  · exact fun nam val => rfl
  · exact fun nam val => rfl

theorem firstOf_eq_none_iff : firstOf x defs = none ↔ ∀ d ∈ defs, d.1 ≠ x := by
  simp [firstOf]

/-- In every state of a run, a macro stands for the first value the command line gave it,
else for the last one assigned in the file. -/
theorem macros_resolve {args : List CStr} {table : List Sym}
    (hargs : List.Forall₂ (fun s d => Defines s d.1 d.2) args defs)
    (htable : commandLine args = some table) {fs : FileSystem} (file : File)
    {P : State Token Val Yy → Prop} {q : State Token Val Yy}
    (hrun : Trace tables (client fs) assignNote P
      (.initial ((Globals.initial table).start file)) assigned q) (x : CStr) :
    symget x q.client.lex = (firstOf x defs).or (firstOf x assigned.reverse) := by
  cases (commandLine_eq hargs).symm.trans htable
  have hhead : q.client.lex.symhead = symTable (fixing defs ++ setting assigned) :=
    symhead_of_trace rfl hrun
  rw [symget, hhead, (symTable_spec _).2 x, symEntry_val, firstFixed_history, lastSet_history]
  cases hfirst : firstOf x defs with
  | some val => rfl
  | none =>
      have hlast : firstOf x defs.reverse = none := by
        rw [firstOf_eq_none_iff] at hfirst ⊢
        exact fun d hd => hfirst d (List.mem_reverse.1 hd)
      rw [hlast, Option.or_none]

end Meaning

/-- A file that assigns a macro of the command line and another one. -/
def twoAssignments : FileSystem where
  stdin := asciiBytes "a x\nb y\n"
  inode _ := none
  uid := 0
  openMax := none

def twoAssignmentsFile : File := ⟨CStr.lit "stdin", twoAssignments.stdin, 1, 0⟩

/-- After `a=u` and `a=v` on the command line the file cannot change `a`. -/
theorem macros_resolve_given :
    ∃ table q, commandLine [CStr.lit "a=u", CStr.lit "a=v"] = some table ∧
      Reaches tables (client twoAssignments)
        (.initial ((Globals.initial table).start twoAssignmentsFile)) q ∧
      symget (CStr.lit "a") q.client.lex = some (CStr.lit "u") ∧
      symget (CStr.lit "b") q.client.lex = some (CStr.lit "y") := by
  have hargs : List.Forall₂ (fun s d => Defines s d.1 d.2) [CStr.lit "a=u", CStr.lit "a=v"]
      [(CStr.lit "a", CStr.lit "u"), (CStr.lit "a", CStr.lit "v")] := by
    refine .cons ⟨?_, ?_⟩ (.cons ⟨?_, ?_⟩ .nil) <;> decide +kernel
  have htable := commandLine_eq hargs
  have hwatch : (watch tables (client twoAssignments) assignNote (fun _ => True) 20
      (.initial ((Globals.initial (symTable (fixing
        [(CStr.lit "a", CStr.lit "u"), (CStr.lit "a", CStr.lit "v")]))).start
          twoAssignmentsFile))).any (fun r =>
        r.1 = [(CStr.lit "a", CStr.lit "x"), (CStr.lit "b", CStr.lit "y")]) = true := by
    decide +kernel
  obtain ⟨⟨assigned, q⟩, hq, hassigned⟩ := (Option.any_eq_true _ _).1 hwatch
  obtain rfl : assigned = _ := of_decide_eq_true hassigned
  have hrun := trace_of_watch hq
  refine ⟨_, q, htable, hrun.reaches, ?_, ?_⟩
  · rw [macros_resolve hargs htable twoAssignmentsFile hrun]
    decide +kernel
  · rw [macros_resolve hargs htable twoAssignmentsFile hrun]
    decide +kernel

end Ifconfigd.Parse
