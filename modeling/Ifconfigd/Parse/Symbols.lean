import Ifconfigd.Parse.Parser
import Mathlib.Data.List.Induction
import Mathlib.Data.List.Nodup

/-!
# The symbol table

`symset` removes the entry of a name and appends the new one, unless the old one is
persistent. Over any history of calls from the empty table this makes `symhead` a map:
what a name means is a function of the calls made for it.
-/

namespace Ifconfigd.Parse

open CLib

/-! ## One call of `symset` -/

section Symset

variable {t : List Sym} {nam x : CStr}

theorem find_eraseP_of_ne (hx : x ≠ nam) :
    (t.eraseP fun sym => sym.nam = nam).find? (fun sym => sym.nam = x) =
      t.find? fun sym => sym.nam = x := by
  induction t with
  | nil => rfl
  | cons sym t ih =>
      by_cases hsym : sym.nam = nam
      · rw [List.eraseP_cons_of_pos (by simpa using hsym), List.find?_cons_of_neg]
        simpa [hsym] using hx.symm
      · rw [List.eraseP_cons_of_neg (by simpa using hsym), List.find?_cons, List.find?_cons, ih]

theorem find_eraseP_self (h : (t.map Sym.nam).Nodup) :
    (t.eraseP fun sym => sym.nam = nam).find? (fun sym => sym.nam = nam) = none := by
  induction t with
  | nil => rfl
  | cons sym t ih =>
      rw [List.map_cons, List.nodup_cons] at h
      by_cases hsym : sym.nam = nam
      · rw [List.eraseP_cons_of_pos (by simpa using hsym), List.find?_eq_none]
        intro sym' hsym' heq
        refine h.1 ?_
        rw [hsym, ← of_decide_eq_true heq]
        exact List.mem_map_of_mem hsym'
      · rw [List.eraseP_cons_of_neg (by simpa using hsym),
          List.find?_cons_of_neg (by simpa using hsym)]
        exact ih h.2

/-- What a lookup finds after `symset`. -/
theorem find_symset (h : (t.map Sym.nam).Nodup) (val : CStr) (persist : Bool) :
    (symset nam val persist t).find? (fun sym => sym.nam = x) =
      if x = nam then
        match t.find? fun sym => sym.nam = nam with
        | some sym => if sym.persist then some sym else some ⟨nam, val, persist⟩
        | none => some ⟨nam, val, persist⟩
      else t.find? fun sym => sym.nam = x := by
  by_cases hx : x = nam
  · subst hx
    rw [symset.eq_def, if_pos rfl]
    cases hfind : t.find? fun sym => sym.nam = x with
    | none => simp [hfind]
    | some sym =>
        cases hpersist : sym.persist with
        | true => simp [hpersist, hfind]
        | false => simp [hpersist, find_eraseP_self h]
  · rw [symset.eq_def, if_neg hx]
    cases hfind : t.find? fun sym => sym.nam = nam with
    | none => simp [List.find?_append, Ne.symm hx]
    | some sym =>
        dsimp only
        split
        · rfl
        · simp [List.find?_append, find_eraseP_of_ne hx, Ne.symm hx]

theorem not_mem_of_find_none (h : t.find? (fun sym => sym.nam = nam) = none) :
    nam ∉ t.map Sym.nam := by
  intro hmem
  obtain ⟨sym, hsym, rfl⟩ := List.mem_map.1 hmem
  exact List.find?_eq_none.1 h sym hsym (by simp)

theorem nodup_symset (h : (t.map Sym.nam).Nodup) (val : CStr) (persist : Bool) :
    ((symset nam val persist t).map Sym.nam).Nodup := by
  have happend : ∀ {t' : List Sym}, (t'.map Sym.nam).Nodup →
      t'.find? (fun sym => sym.nam = nam) = none →
        ((t' ++ [Sym.mk nam val persist]).map Sym.nam).Nodup := by
    intro t' hnodup hfind
    rw [List.map_append, List.nodup_append]
    refine ⟨hnodup, List.nodup_singleton _, fun x hx y hy hxy => ?_⟩
    obtain rfl : x = nam := hxy.trans (List.mem_singleton.1 hy)
    exact not_mem_of_find_none hfind hx
  rw [symset.eq_def]
  cases hfind : t.find? fun sym => sym.nam = nam with
  | none => exact happend h hfind
  | some sym =>
      dsimp only
      split
      · exact h
      · exact happend (h.sublist (List.eraseP_sublist.map _)) (find_eraseP_self h)

theorem mem_symset {val : CStr} {persist : Bool} {sym : Sym}
    (h : sym ∈ symset nam val persist t) : sym ∈ t ∨ sym = ⟨nam, val, persist⟩ := by
  rw [symset.eq_def] at h
  split at h
  · split at h
    · exact .inl h
    · rcases List.mem_append.1 h with h | h
      · exact .inl (List.mem_of_mem_eraseP h)
      · exact .inr (List.mem_singleton.1 h)
  · rcases List.mem_append.1 h with h | h
    · exact .inl h
    · exact .inr (List.mem_singleton.1 h)

end Symset

/-! ## Histories of calls -/

inductive SymCall
  | set (nam val : CStr) (persist : Bool)
  | get (nam : CStr)

namespace SymCall

def nam : SymCall → CStr
  | set nam _ _ => nam
  | get nam => nam

/-- What the call does to `symhead`; `symget` only marks the entry as used. -/
def exec : SymCall → List Sym → List Sym
  | set nam val persist, t => symset nam val persist t
  | get _, t => t

/-- The value the call gives to `x`. -/
def sets (x : CStr) : SymCall → Option CStr
  | set nam val _ => if nam = x then some val else none
  | get _ => none

/-- The value the call gives to `x` for good. -/
def fixes (x : CStr) : SymCall → Option CStr
  | set nam val persist => if nam = x ∧ persist then some val else none
  | get _ => none

end SymCall

/-- `symhead` after some calls from the empty table. -/
def symTable (calls : List SymCall) : List Sym :=
  calls.foldl (fun t call => call.exec t) []

@[simp] theorem symTable_nil : symTable [] = [] := rfl

@[simp] theorem symTable_concat (calls : List SymCall) (call : SymCall) :
    symTable (calls ++ [call]) = call.exec (symTable calls) := by
  simp [symTable]

section Meaning

variable (x : CStr) (calls : List SymCall) (call : SymCall)

def firstFixed : Option CStr := calls.findSome? (SymCall.fixes x)

def lastSet : Option CStr := calls.reverse.findSome? (SymCall.sets x)

@[simp] theorem firstFixed_concat :
    firstFixed x (calls ++ [call]) = (firstFixed x calls).or (call.fixes x) := by
  simp [firstFixed, List.findSome?_append]

@[simp] theorem lastSet_concat :
    lastSet x (calls ++ [call]) = (call.sets x).or (lastSet x calls) := by
  rw [lastSet, List.reverse_append, List.findSome?_append]
  simp [lastSet]

/-- The entry a history leaves for `x`: its first value for good, else its last one. -/
def symEntry : Option Sym :=
  match firstFixed x calls with
  | some val => some ⟨x, val, true⟩
  | none => (lastSet x calls).map fun val => ⟨x, val, false⟩

theorem symEntry_val :
    (symEntry x calls).map Sym.val = (firstFixed x calls).or (lastSet x calls) := by
  unfold symEntry
  cases firstFixed x calls with
  | some val => rfl
  | none => simp [Function.comp_def]

/-- The entry after one more `symset`. -/
theorem symEntry_set (nam val : CStr) (persist : Bool) :
    symEntry x (calls ++ [.set nam val persist]) =
      if x = nam then
        match symEntry nam calls with
        | some sym => if sym.persist then some sym else some ⟨nam, val, persist⟩
        | none => some ⟨nam, val, persist⟩
      else symEntry x calls := by
  by_cases hx : x = nam
  · subst hx
    rw [if_pos rfl]
    cases hfix : firstFixed x calls with
    | some v => simp [symEntry, hfix]
    | none =>
        cases persist <;>
          cases hset : lastSet x calls <;>
            simp [symEntry, SymCall.sets, SymCall.fixes, hfix, hset]
  · simp [symEntry, SymCall.sets, SymCall.fixes, hx, Ne.symm hx]

/-- A call for another name, or a `symget`, leaves the entry of a name as it is. -/
theorem symEntry_of_idle (hsets : call.sets x = none) (hfixes : call.fixes x = none) :
    symEntry x (calls ++ [call]) = symEntry x calls := by
  simp [symEntry, hsets, hfixes]

end Meaning

theorem SymCall.idle_of_ne {x : CStr} {call : SymCall} (h : call.nam ≠ x) :
    call.sets x = none ∧ call.fixes x = none := by
  cases call with
  | get nam => exact ⟨rfl, rfl⟩
  | set nam val persist =>
      have hne : nam ≠ x := h
      simp [SymCall.sets, SymCall.fixes, hne]

/-- Along every history the table has each name once, and the entry the history says. -/
theorem symTable_spec (calls : List SymCall) :
    ((symTable calls).map Sym.nam).Nodup ∧
      ∀ x, (symTable calls).find? (fun sym => sym.nam = x) = symEntry x calls := by
  induction calls using List.reverseRecOn with
  | nil => exact ⟨List.nodup_nil, fun _ => rfl⟩
  | append_singleton calls call ih =>
      obtain ⟨hnodup, hfind⟩ := ih
      rw [symTable_concat]
      cases call with
      | get nam => exact ⟨hnodup, fun x =>
          (hfind x).trans (symEntry_of_idle x calls (.get nam) rfl rfl).symm⟩
      | set nam val persist =>
          refine ⟨nodup_symset hnodup val persist, fun x => ?_⟩
          rw [symEntry_set, ← hfind, ← hfind]
          exact find_symset hnodup val persist

/-- The symbol table is a map whose persistent entries stay: `symget` answers with the
value of the first persistent `symset` of the name, else of the last `symset` of it, and
the calls for other names do not matter. -/
theorem symget_symTable (s : Lex) (calls : List SymCall) :
    ((symTable calls).map Sym.nam).Nodup ∧
      (∀ x, symget x { s with symhead := symTable calls } =
        (calls.findSome? (SymCall.fixes x)).or (calls.reverse.findSome? (SymCall.sets x))) ∧
      ∀ x call, call.nam ≠ x →
        symget x { s with symhead := symTable (calls ++ [call]) } =
          symget x { s with symhead := symTable calls } := by
  have hget : ∀ calls x, symget x { s with symhead := symTable calls } =
      (symEntry x calls).map Sym.val := by
    intro calls x
    rw [symget, (symTable_spec calls).2 x]
  refine ⟨(symTable_spec calls).1, fun x => (hget calls x).trans (symEntry_val x calls),
    fun x call hne => ?_⟩
  obtain ⟨hsets, hfixes⟩ := SymCall.idle_of_ne hne
  rw [hget, hget, symEntry_of_idle x calls call hsets hfixes]

/-- A macro that is set, fixed and set again keeps the value it was fixed to, whatever is
asked and set for another name. -/
theorem symget_symTable_fixed :
    symget (CStr.lit "a") { (Globals.initial []).yy.lex with
      symhead := symTable ([.set (CStr.lit "a") (CStr.lit "1") false,
        .set (CStr.lit "a") (CStr.lit "2") true, .set (CStr.lit "a") (CStr.lit "3") true] ++
          [.set (CStr.lit "b") (CStr.lit "4") false]) } = some (CStr.lit "2") := by
  obtain ⟨-, hvalue, hother⟩ := symget_symTable (Globals.initial []).yy.lex
    [.set (CStr.lit "a") (CStr.lit "1") false, .set (CStr.lit "a") (CStr.lit "2") true,
      .set (CStr.lit "a") (CStr.lit "3") true]
  rw [hother (CStr.lit "a") (.set (CStr.lit "b") (CStr.lit "4") false) (by decide),
    hvalue (CStr.lit "a")]
  decide

end Ifconfigd.Parse
