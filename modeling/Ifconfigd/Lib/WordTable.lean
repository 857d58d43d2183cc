import Ifconfigd.Lib.Bytes
import Mathlib.Data.List.Lex
import Mathlib.Order.Defs.LinearOrder

/-!
# Searching a sorted table of words

`strcmp` compares two strings byte by byte, and `bsearch` halves a table with a
comparison. In a table whose words ascend, the search finds the entry of a word exactly
if there is one: it agrees with going through the table from its start.
-/

namespace CLib

/-! ## `strcmp` -/

/-- `strcmp` on the bytes before the terminating NULs. -/
def strcmpBytes : List Byte → List Byte → Int
  | [], [] => 0
  | [], b :: _ => 0 - b.toNat
  | a :: _, [] => a.toNat - 0
  | a :: as, b :: bs => if a = b then strcmpBytes as bs else a.toNat - b.toNat

/-- `strcmp`. -/
def strcmp (s t : CStr) : Int := strcmpBytes s.bytes t.bytes

/-- The bytes of a string as numbers, in the lexicographic order of lists. -/
def CStr.ranks (s : CStr) : List Nat := s.bytes.map UInt8.toNat

theorem CStr.ranks_inj {s t : CStr} : s.ranks = t.ranks ↔ s = t := by
  constructor
  · intro h
    apply CStr.ext
    exact List.map_injective_iff.mpr (fun a b => UInt8.toNat_inj.mp) h
  · rintro rfl
    rfl

theorem strcmpBytes_lt_iff {as bs : List Byte} (hbs : 0 ∉ bs) :
    strcmpBytes as bs < 0 ↔ as.map UInt8.toNat < bs.map UInt8.toNat := by
  induction as generalizing bs with
  | nil =>
      cases bs with
      | nil => simp [strcmpBytes]
      | cons b bs =>
          have hb : b ≠ 0 := fun h => hbs (by rw [h]; exact List.mem_cons_self)
          have hpos : 0 < b.toNat := UInt8.pos_iff_ne_zero.mpr hb
          simp only [strcmpBytes, List.map_nil, List.map_cons, List.nil_lt_cons, iff_true]
          omega
  | cons a as ih =>
      cases bs with
      | nil => simp [strcmpBytes]
      | cons b bs =>
          have hrest := ih fun h => hbs (List.mem_cons_of_mem b h)
          simp only [strcmpBytes, List.map_cons, List.cons_lt_cons_iff]
          split_ifs with heq
          · rw [hrest]
            simp [heq]
          · have hne : a.toNat ≠ b.toNat := fun h => heq (UInt8.toNat_inj.mp h)
            simp only [hne, false_and, or_false]
            omega

theorem strcmpBytes_eq_zero_iff {as bs : List Byte} (has : 0 ∉ as) (hbs : 0 ∉ bs) :
    strcmpBytes as bs = 0 ↔ as = bs := by
  induction as generalizing bs with
  | nil =>
      cases bs with
      | nil => simp [strcmpBytes]
      | cons b bs =>
          have hb : b.toNat ≠ 0 := fun h =>
            hbs (by rw [show b = 0 from UInt8.toNat_inj.mp h]; exact List.mem_cons_self)
          simp only [strcmpBytes, List.nil_eq, reduceCtorEq, iff_false]
          omega
  | cons a as ih =>
      have ha : a.toNat ≠ 0 := fun h =>
        has (by rw [show a = 0 from UInt8.toNat_inj.mp h]; exact List.mem_cons_self)
      cases bs with
      | nil =>
          simp only [strcmpBytes, reduceCtorEq, iff_false]
          omega
      | cons b bs =>
          have hrest := ih (fun h => has (List.mem_cons_of_mem a h))
            fun h => hbs (List.mem_cons_of_mem b h)
          simp only [strcmpBytes, List.cons.injEq]
          split_ifs with heq
          · simp [heq, hrest]
          · have hne : a.toNat ≠ b.toNat := fun h => heq (UInt8.toNat_inj.mp h)
            simp only [heq, false_and, iff_false]
            omega

theorem strcmp_lt_iff (s t : CStr) : strcmp s t < 0 ↔ s.ranks < t.ranks :=
  strcmpBytes_lt_iff t.noNul

theorem strcmp_eq_zero_iff (s t : CStr) : strcmp s t = 0 ↔ s = t := by
  rw [CStr.ext_iff]
  exact strcmpBytes_eq_zero_iff s.noNul t.noNul

/-! ## `bsearch` -/

section Search

variable {α : Type*} (compar : α → Int)

/-- The loop of `bsearch` over the `lim` entries of the table from `base` on. `compar`
compares the key with an entry. -/
def bsearchLoop (table : List α) (base lim : Nat) : Option α :=
  if lim = 0 then none
  else
    match table[base + lim / 2]? with
    | none => none
    | some p =>
        if compar p = 0 then some p
        else if 0 < compar p then bsearchLoop table (base + lim / 2 + 1) ((lim - 1) / 2)
        else bsearchLoop table base (lim / 2)
termination_by lim

/-- `bsearch`. -/
def bsearch (table : List α) : Option α := bsearchLoop compar table 0 table.length

variable {compar}

/-- The entries ascend, as the key sees them: behind one that is not below the key, all
are above it. -/
def Ascending (compar : α → Int) (table : List α) : Prop :=
  table.Pairwise fun a b => compar a ≤ 0 → compar b < 0

theorem bsearchLoop_eq_find? {before window after : List α} (hasc : Ascending compar window) :
    bsearchLoop compar (before ++ window ++ after) before.length window.length =
      window.find? fun a => compar a = 0 := by
  induction hn : window.length using Nat.strong_induction_on generalizing before window after with
  | _ n ih =>
    subst hn
    rw [bsearchLoop]
    split_ifs with hempty
    · rw [List.length_eq_zero_iff.mp hempty]
      rfl
    · -- Split the window at the entry looked at.
      obtain ⟨left, p, right, rfl, hleft⟩ : ∃ left p right, window = left ++ p :: right ∧
          left.length = window.length / 2 := by
        have hlt : window.length / 2 < window.length := Nat.div_lt_self (by omega) (by decide)
        refine ⟨window.take (window.length / 2), window[window.length / 2],
          window.drop (window.length / 2 + 1), ?_, by rw [List.length_take]; omega⟩
        rw [← List.drop_eq_getElem_cons hlt, List.take_append_drop]
      have hget : (before ++ (left ++ p :: right) ++ after)[before.length + left.length]? =
          some p := by
        simp
      have hsize : (left ++ p :: right).length = left.length + right.length + 1 := by
        simp [Nat.add_assoc]
      rw [← hleft, hget]
      obtain ⟨hascl, hascr, hcross⟩ := List.pairwise_append.mp hasc
      have hright : ∀ b ∈ right, compar p ≤ 0 → compar b < 0 := (List.pairwise_cons.mp hascr).1
      have hbelow : 0 ≤ compar p → left.find? (fun a => compar a = 0) = none := by
        intro hp
        rw [List.find?_eq_none]
        intro a ha
        have habove := hcross a ha p List.mem_cons_self
        simp only [decide_eq_true_eq]
        omega
      rw [List.find?_append]
      dsimp only
      split_ifs with hzero hpos
      · rw [hbelow hzero.ge]
        simp [hzero]
      · have hlist : before ++ (left ++ p :: right) ++ after =
            (before ++ left ++ [p]) ++ right ++ after := by simp
        have hbase : before.length + left.length + 1 = (before ++ left ++ [p]).length := by
          simp [Nat.add_assoc]
        have hlim : ((left ++ p :: right).length - 1) / 2 = right.length := by omega
        rw [hlist, hbase, hlim, hbelow hpos.le,
          ih right.length (by omega) (List.pairwise_cons.mp hascr).2 rfl]
        simp [hzero]
      · have hlist : before ++ (left ++ p :: right) ++ after =
            before ++ left ++ (p :: right ++ after) := by simp
        have habove : (p :: right).find? (fun a => compar a = 0) = none := by
          rw [List.find?_eq_none]
          intro b hb
          rcases List.mem_cons.mp hb with rfl | hb
          · simpa using hzero
          · have hlt := hright b hb (by omega)
            simp only [decide_eq_true_eq]
            omega
        rw [hlist, habove, ih left.length (by omega) hascl rfl, Option.or_none]

/-- In an ascending table the search finds what a walk through the table finds. -/
theorem bsearch_eq_find? {table : List α} (hasc : Ascending compar table) :
    bsearch compar table = table.find? fun a => compar a = 0 := by
  have h := @bsearchLoop_eq_find? _ _ [] table [] hasc
  rwa [List.nil_append, List.append_nil] at h

end Search

/-- A table of words in ascending order, searched for a word. -/
theorem bsearch_words {β : Type*} {table : List (CStr × β)}
    (hsorted : (table.map fun e => e.1.ranks).Pairwise (· < ·)) (key : CStr) :
    bsearch (fun e => strcmp key e.1) table = table.find? fun e => e.1 = key := by
  have hasc : Ascending (fun e : CStr × β => strcmp key e.1) table := by
    rw [List.pairwise_map] at hsorted
    refine hsorted.imp fun {a b} hlt hle => ?_
    rw [strcmp_lt_iff]
    rcases Int.le_iff_lt_or_eq.mp hle with hbelow | hequal
    · exact lt_trans ((strcmp_lt_iff _ _).mp hbelow) hlt
    · rw [(strcmp_eq_zero_iff _ _).mp hequal]
      exact hlt
  rw [bsearch_eq_find? hasc]
  congr 1
  funext e
  rw [decide_eq_decide, strcmp_eq_zero_iff, eq_comm]

end CLib
