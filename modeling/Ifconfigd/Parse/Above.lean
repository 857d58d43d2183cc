import Ifconfigd.Parse.Paired

/-!
# Files above others

The innermost of the open files can be the same in both parsers while what is below them
differs. `Above B` says that the files agree down to a base, and that the bases are in `B`.
-/

namespace Ifconfigd.Parse

open CLib Yacc

/-- The same characters are left. Errors may have been counted differently, but not in only
one of the files. -/
structure SameRest (f f' : File) : Prop where
  rest : f'.rest = f.rest
  errors : f'.errors = 0 ↔ f.errors = 0

/-- The files agree down to a base in `B`. -/
inductive Above (B : List File → List File → Prop) : List File → List File → Prop
  | base {files files' : List File} (h : B files files') : Above B files files'
  | file {f f' : File} {files files' : List File} (h : SameRest f f') (hs : Above B files files') :
      Above B (f :: files) (f' :: files')

/-- What is asked of the bases. -/
structure BaseSim (Bad : List File → Prop) (B : List File → List File → Prop) : Prop where
  keeps : LexKeeps fun s => Bad s.files
  empty : ∀ {files files' : List File}, B files files' → (files' = [] ↔ files = [])
  joined : ∀ {s t : Lex}, B s.files t.files → ¬Bad (getcJoined s).2.files →
    (getcJoined t).1 = (getcJoined s).1 ∧ Above B (getcJoined s).2.files (getcJoined t).2.files
  quoted : ∀ {s t : Lex} (quotec : Int), B s.files t.files → ¬Bad (getcQuoted quotec s).2.files →
    (getcQuoted quotec t).1 = (getcQuoted quotec s).1 ∧
      Above B (getcQuoted quotec s).2.files (getcQuoted quotec t).2.files
  /-- The last file above the base has come to its end. -/
  pop : ∀ {f f' : File} {files files' : List File}, SameRest f f' → B files files' →
    f.rest = [] → ¬Bad ((popWhileEof f files).2.1 :: (popWhileEof f files).2.2) →
    (popWhileEof f' files').1 = (popWhileEof f files).1 ∧
      Above B ((popWhileEof f files).2.1 :: (popWhileEof f files).2.2)
        ((popWhileEof f' files').2.1 :: (popWhileEof f' files').2.2)
  add : ∀ {f f' : File} {files files' : List File} {e e' : Nat}, B (f :: files) (f' :: files') →
    (e' = 0 ↔ e = 0) → B ({ f with errors := f.errors + e } :: files)
      ({ f' with errors := f'.errors + e' } :: files')
  addFirst : ∀ {f f' : File} {files files' : List File} {e : Nat}, B (f :: files) (f' :: files') →
    f'.errors ≠ 0 → B ({ f with errors := f.errors + e } :: files) (f' :: files')
  addSecond : ∀ {f f' : File} {files files' : List File} {e : Nat}, B (f :: files) (f' :: files') →
    f.errors ≠ 0 → B (f :: files) ({ f' with errors := f'.errors + e } :: files')
  lineno : ∀ {f f' : File} {files files' : List File} (n n' : Nat), B (f :: files) (f' :: files') →
    B ({ f with lineno := n } :: files) ({ f' with lineno := n' } :: files')

section Above

variable {Bad : List File → Prop} {B : List File → List File → Prop} {f f' : File}
  {files files' : List File}

theorem SameRest.add (h : SameRest f f') {e e' : Nat} (he : e' = 0 ↔ e = 0) :
    SameRest { f with errors := f.errors + e } { f' with errors := f'.errors + e' } :=
  ⟨h.rest, by
    have := h.errors
    simp only
    omega⟩

variable (hB : BaseSim Bad B)

include hB

theorem Above.empty (h : Above B files files') : files' = [] ↔ files = [] := by
  cases h with
  | base hbase => exact hB.empty hbase
  | file => exact iff_of_false (List.cons_ne_nil _ _) (List.cons_ne_nil _ _)

theorem Above.add (h : Above B (f :: files) (f' :: files')) {e e' : Nat} (he : e' = 0 ↔ e = 0) :
    Above B ({ f with errors := f.errors + e } :: files)
      ({ f' with errors := f'.errors + e' } :: files') := by
  cases h with
  | base hbase => exact .base (hB.add hbase he)
  | file hf hs => exact .file (hf.add he) hs

theorem popWhileEof_above (h : SameRest f f') (hs : Above B files files') (hrest : f.rest = [])
    (hgood : ¬Bad ((popWhileEof f files).2.1 :: (popWhileEof f files).2.2)) :
    (popWhileEof f' files').1 = (popWhileEof f files).1 ∧
      Above B ((popWhileEof f files).2.1 :: (popWhileEof f files).2.2)
        ((popWhileEof f' files').2.1 :: (popWhileEof f' files').2.2) := by
  induction hs generalizing f f' with
  | base hbase => exact hB.pop h hbase hrest hgood
  | @file g g' gs gs' hg hgs ih =>
      have hadd := hg.add h.errors
      cases hempty : g.rest with
      | nil =>
          have hempty' := hg.rest.trans hempty
          simp only [popWhileEof, hempty, hempty'] at hgood ⊢
          exact ih ⟨rfl, hadd.errors⟩ rfl hgood
      | cons b rest =>
          have hcons' := hg.rest.trans hempty
          simp only [popWhileEof, hempty, hcons']
          exact ⟨trivial, .file ⟨rfl, hadd.errors⟩ hgs⟩

theorem above_joined {s t : Lex} (h : Above B s.files t.files) (hgood : ¬Bad (getcJoined s).2.files) :
    (getcJoined t).1 = (getcJoined s).1 ∧ Above B (getcJoined s).2.files (getcJoined t).2.files := by
  obtain ⟨hchar, hleft⟩ :=
    joinLines_data s.file.rest t.file.lineno t.lineno s.file.lineno s.lineno
  cases h with
  | base hbase => exact hB.joined hbase hgood
  | file hf hs =>
      revert hgood
      simp only [getcJoined, hf.rest, hchar, hleft]
      split
      · exact fun _ => ⟨rfl, .file ⟨rfl, hf.errors⟩ hs⟩
      · next hnone =>
          rw [joinLines_none hnone]
          exact popWhileEof_above hB ⟨rfl, hf.errors⟩ hs rfl

theorem above_quoted {s t : Lex} {quotec : Int} (h : Above B s.files t.files)
    (hgood : ¬Bad (getcQuoted quotec s).2.files) :
    (getcQuoted quotec t).1 = (getcQuoted quotec s).1 ∧
      Above B (getcQuoted quotec s).2.files (getcQuoted quotec t).2.files := by
  cases h with
  | base hbase => exact hB.quoted quotec hbase hgood
  | file hf hs =>
      have hcount := @SameRest.add _ _ hf 1 1 Iff.rfl
      simp only [getcQuoted, hf.rest]
      split
      · exact ⟨rfl, .file ⟨rfl, hf.errors⟩ hs⟩
      · cases hprev : s.prev with
        | nil =>
            have hprev' := (hs.empty hB).2 hprev
            simp only [popfile, yyerror, hprev, hprev', Lex.files]
            rw [hprev, hprev'] at hs
            exact ⟨trivial, .file hcount hs⟩
        | cons p ps =>
            cases hprev' : t.prev with
            | nil => exact absurd ((hs.empty hB).1 hprev') (by simp [hprev])
            | cons p' ps' =>
                simp only [popfile, yyerror, hprev, hprev', Lex.files]
                rw [hprev, hprev'] at hs
                exact ⟨trivial, hs.add hB hcount.errors⟩

theorem filesSim_above : FilesSim (fun s => Bad s.files) (Above B) where
  keeps := hB.keeps
  joined h hgood := above_joined hB h hgood
  quoted quotec h hgood := above_quoted hB h hgood
  lineno n n' h := by
    cases h with
    | base hbase => exact .base (hB.lineno n n' hbase)
    | file hf hs => exact .file ⟨hf.rest, hf.errors⟩ hs
  count h := by
    cases h with
    | base hbase => exact .base (hB.add hbase Iff.rfl)
    | file hf hs => exact .file (hf.add Iff.rfl) hs

theorem filesActs_above : FilesActs (Above B) where
  push nfile h := .file ⟨rfl, Iff.rfl⟩ h
  countFirst h herrors := by
    cases h with
    | base hbase => exact .base (hB.addFirst hbase herrors)
    | file hf hs =>
        refine .file ⟨hf.rest, ?_⟩ hs
        have := hf.errors
        simp only
        omega
  countSecond h herrors := by
    cases h with
    | base hbase => exact .base (hB.addSecond hbase herrors)
    | file hf hs =>
        refine .file ⟨hf.rest, ?_⟩ hs
        have := hf.errors
        simp only
        omega

end Above

/-! ## The same files -/

/-- All of the files agree. -/
abbrev SameFiles : List File → List File → Prop :=
  Above fun files files' => files = [] ∧ files' = []

theorem baseSim_same :
    BaseSim (fun _ => False) fun files files' : List File => files = [] ∧ files' = [] where
  keeps := ⟨⟨fun _ _ => id, fun _ _ => id, fun _ _ => id, fun _ => id, fun _ => id, fun _ _ => id⟩,
    fun _ _ _ h _ => h, fun _ _ => id⟩
  empty h := by rw [h.1, h.2]
  joined h := absurd h.1 (List.cons_ne_nil _ _)
  quoted _ h := absurd h.1 (List.cons_ne_nil _ _)
  pop hf h hrest _ := by
    obtain ⟨rfl, rfl⟩ := h
    exact ⟨rfl, .file hf (.base ⟨rfl, rfl⟩)⟩
  add h := absurd h.1 (List.cons_ne_nil _ _)
  addFirst h := absurd h.1 (List.cons_ne_nil _ _)
  addSecond h := absurd h.1 (List.cons_ne_nil _ _)
  lineno _ _ h := absurd h.1 (List.cons_ne_nil _ _)

theorem SameFiles.length {files files' : List File} (h : SameFiles files files') :
    files'.length = files.length := by
  induction h with
  | base h => rw [h.1, h.2]
  | file _ _ ih => rw [List.length_cons, List.length_cons, ih]

end Ifconfigd.Parse
