import Mathlib.Data.List.Nodup
import Mathlib.Tactic.Common

/-!
# Event bases

An event base holds the events that have been added and not been deleted. An event is
named by the structure it was added with, which is in the base at most once, and comes
with the conditions it waits for. A non-persistent event is deleted before its callback
is called, so that a callback has to add it again.
-/

/-- The pending events of structures `κ`, with conditions `ε`. -/
structure EventBase (κ ε : Type*) where
  pending : List (κ × ε)
  nodup : (pending.map Prod.fst).Nodup

namespace EventBase

variable {κ ε : Type*} [DecidableEq κ]

def empty : EventBase κ ε := ⟨[], List.nodup_nil⟩

/-- The conditions the structure is pending with. -/
def conditions (b : EventBase κ ε) (k : κ) : List ε :=
  (b.pending.filter fun p => p.1 = k).map Prod.snd

/-- `event_del`. -/
def del (b : EventBase κ ε) (k : κ) : EventBase κ ε where
  pending := b.pending.filter fun p => p.1 ≠ k
  nodup := b.nodup.sublist (List.filter_sublist.map Prod.fst)

/-- `event_add`: nothing happens if the structure is pending. -/
def add (b : EventBase κ ε) (k : κ) (e : ε) : EventBase κ ε :=
  if h : k ∈ b.pending.map Prod.fst then b
  else
    { pending := b.pending ++ [(k, e)]
      nodup := by
        rw [List.map_append, List.nodup_append]
        refine ⟨b.nodup, List.nodup_singleton k, ?_⟩
        rintro a ha _ hb rfl
        cases List.mem_singleton.1 hb
        exact h ha }

/-- Delete an event and add it with other conditions. -/
def readd (b : EventBase κ ε) (k : κ) (e : ε) : EventBase κ ε := (b.del k).add k e

variable {b : EventBase κ ε} {k j : κ} {e : ε}

@[simp] theorem conditions_empty : (empty : EventBase κ ε).conditions k = [] := rfl

@[simp] theorem conditions_del_self : (b.del k).conditions k = [] := by
  simp [conditions, del, List.filter_filter]

theorem conditions_del_of_ne (h : j ≠ k) : (b.del k).conditions j = b.conditions j := by
  simp only [conditions, del, List.filter_filter]
  congr 1
  refine List.filter_congr fun p _ => ?_
  by_cases hp : p.1 = j <;> simp [hp, h]

theorem not_mem_keys (h : b.conditions k = []) : k ∉ b.pending.map Prod.fst := by
  intro hmem
  obtain ⟨p, hp, rfl⟩ := List.mem_map.1 hmem
  rw [conditions, List.map_eq_nil_iff, List.filter_eq_nil_iff] at h
  exact h p hp (by simp)

theorem conditions_add_self (h : b.conditions k = []) : (b.add k e).conditions k = [e] := by
  have hpending : b.pending.filter (fun p => decide (p.1 = k)) = [] := by
    simpa [conditions] using h
  rw [add, dif_neg (not_mem_keys h), conditions, List.filter_append, hpending]
  simp

theorem conditions_add_of_ne (h : j ≠ k) : (b.add k e).conditions j = b.conditions j := by
  rw [add]
  split
  · rfl
  · simp [conditions, List.filter_append, Ne.symm h]

@[simp] theorem conditions_readd_self : (b.readd k e).conditions k = [e] :=
  conditions_add_self conditions_del_self

theorem conditions_readd_of_ne (h : j ≠ k) : (b.readd k e).conditions j = b.conditions j := by
  rw [readd, conditions_add_of_ne h, conditions_del_of_ne h]

end EventBase
