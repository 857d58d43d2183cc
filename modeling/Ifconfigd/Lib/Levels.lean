import Mathlib.Data.DFinsupp.WellFounded
import Mathlib.Data.List.GetD
import Mathlib.Order.PiLex
import Mathlib.Tactic.Common

/-!
# Stacks of counters

A stack of counters with its top in front, for a reader of nested inputs: each counter
is what is left of one input. Reading takes something from the input on top, after
leaving inputs above it; an input can also be left without reading on below it.

Stacks of bounded height are compared from the bottom up. This order is well-founded,
reading goes down in it, and so does opening an input, whatever its length, at the price
of one unit of credit on the input below.
-/

namespace Levels

/-- `l'` is `l` after something was read. -/
def Read (l' l : List Nat) : Prop :=
  ∃ (above : List Nat) (x' x : Nat) (lower : List Nat),
    l' = x' :: lower ∧ l = above ++ x :: lower ∧ x' < x

/-- `l'` is `l` after inputs were left. -/
def Dropped (l' l : List Nat) : Prop := ∃ above, above ≠ [] ∧ l = above ++ l'

theorem Read.trans {l l' l'' : List Nat} (h : Read l' l) (h' : Read l'' l') : Read l'' l := by
  obtain ⟨above, x', x, lower, rfl, rfl, hlt⟩ := h
  obtain ⟨above', y', y, lower', rfl, heq, hlt'⟩ := h'
  cases above' with
  | nil =>
      obtain ⟨rfl, rfl⟩ := List.cons.inj heq
      exact ⟨above, y', x, lower, rfl, rfl, hlt'.trans hlt⟩
  | cons z above' =>
      obtain ⟨-, rfl⟩ := List.cons.inj heq
      exact ⟨above ++ x :: above', y', y, lower', rfl, by simp, hlt'⟩

theorem Read.dropped {l l' l'' : List Nat} (h : Read l' l) (h' : Dropped l'' l') :
    Dropped l'' l := by
  obtain ⟨above, x', x, lower, rfl, rfl, -⟩ := h
  obtain ⟨above', hne, heq⟩ := h'
  cases above' with
  | nil => exact absurd rfl hne
  | cons z above' =>
      obtain ⟨-, rfl⟩ := List.cons.inj heq
      exact ⟨above ++ x :: above', by simp, by simp⟩

theorem Dropped.read {l l' l'' : List Nat} (h : Dropped l' l) (h' : Read l'' l') :
    Read l'' l := by
  obtain ⟨above, -, rfl⟩ := h
  obtain ⟨above', y', y, lower, rfl, rfl, hlt⟩ := h'
  exact ⟨above ++ above', y', y, lower, rfl, by simp, hlt⟩

theorem Dropped.trans {l l' l'' : List Nat} (h : Dropped l' l) (h' : Dropped l'' l') :
    Dropped l'' l := by
  obtain ⟨above, hne, rfl⟩ := h
  obtain ⟨above', -, rfl⟩ := h'
  exact ⟨above ++ above', by simp [hne], by simp⟩

/-- What is left in all inputs, with one for leaving each. -/
def total (l : List Nat) : Nat := (l.map (· + 1)).sum

theorem Dropped.total_lt {l l' : List Nat} (h : Dropped l' l) : total l' < total l := by
  obtain ⟨above, hne, rfl⟩ := h
  cases above with
  | nil => exact absurd rfl hne
  | cons x above =>
      simp only [total, List.cons_append, List.map_cons, List.map_append, List.sum_cons,
        List.sum_append]
      omega

/-! ## The order -/

/-- The counters from the bottom up, doubled, with a credit on the one on top. -/
def weight (height credit : Nat) (l : List Nat) : Lex (Fin height → Nat) :=
  toLex fun i => 2 * l.reverse.getD i 0 + if (i : Nat) + 1 = l.length then credit else 0

variable {height credit credit' : Nat} {l l' : List Nat}

/-- Two stacks that are alike below `lower`, and smaller there. -/
theorem weight_lt {i : Nat} (hi : i < height)
    (hbelow : ∀ j < i, 2 * l'.reverse.getD j 0 + (if j + 1 = l'.length then credit' else 0) =
      2 * l.reverse.getD j 0 + if j + 1 = l.length then credit else 0)
    (hlt : 2 * l'.reverse.getD i 0 + (if i + 1 = l'.length then credit' else 0) <
      2 * l.reverse.getD i 0 + if i + 1 = l.length then credit else 0) :
    weight height credit' l' < weight height credit l :=
  ⟨⟨i, hi⟩, fun j hj => hbelow j hj, hlt⟩

theorem Read.weight_lt (h : Read l' l) (hheight : l.length ≤ height) (hcredit : credit' ≤ 1) :
    weight height credit' l' < weight height credit l := by
  obtain ⟨above, x', x, lower, rfl, rfl, hlt⟩ := h
  rw [List.length_append, List.length_cons] at hheight
  refine Levels.weight_lt (i := lower.length) (by omega) (fun j hj => ?_) ?_
  · simp only [List.length_append, List.length_cons, List.reverse_append, List.reverse_cons,
      List.append_assoc]
    rw [if_neg (by omega), if_neg (by omega), List.getD_append _ _ _ _ (by simpa using hj),
      List.getD_append _ _ _ _ (by simpa using hj)]
  · simp only [List.length_append, List.length_cons, List.reverse_append, List.reverse_cons,
      List.append_assoc, List.getD_eq_getElem?_getD]
    rw [List.getElem?_append_right (by simp), List.getElem?_append_right (by simp)]
    simp only [List.length_reverse, Nat.sub_self, List.cons_append, List.nil_append,
      List.getElem?_cons_zero, Option.getD_some]
    split_ifs <;> omega

theorem Dropped.weight_le (h : Dropped l' l) : weight height 0 l' ≤ weight height credit l := by
  obtain ⟨above, hne, rfl⟩ := h
  refine Pi.toLex_monotone fun i => ?_
  simp only [ite_self, Nat.add_zero, List.reverse_append, List.length_append]
  by_cases hi : (i : Nat) < l'.length
  · rw [List.getD_append _ _ _ _ (by simpa using hi)]
    omega
  · rw [List.getD_eq_default _ _ (by simpa using hi)]
    omega

theorem weight_le (h : credit' ≤ credit) : weight height credit' l ≤ weight height credit l := by
  refine Pi.toLex_monotone fun i => ?_
  split_ifs <;> omega

/-- Opening an input costs the credit. -/
theorem weight_cons_lt (x : Nat) (hne : l ≠ []) (hheight : l.length ≤ height) :
    weight height credit' (x :: l) < weight height 1 l := by
  have hpos := List.length_pos_iff.2 hne
  refine Levels.weight_lt (i := l.length - 1) (by omega) (fun j hj => ?_) ?_
  · rw [List.length_cons, if_neg (by omega), if_neg (by omega), List.reverse_cons,
      List.getD_append _ _ _ _ (by simp; omega)]
  · rw [List.length_cons, if_neg (by omega), if_pos (by omega), List.reverse_cons,
      List.getD_append _ _ _ _ (by simp; omega)]
    omega

end Levels
