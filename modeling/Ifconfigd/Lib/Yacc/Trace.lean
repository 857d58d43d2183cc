import Ifconfigd.Lib.Yacc.Steps

/-!
# Notes taken along a run

A run can be watched by taking a note at each reduction whose action returns. `Trace`
is a part of a run together with its notes, and `Trace.holds` is the rule for relating
the notes to what the client has become: the relation holds at the start, an action
keeps it with its note appended, and everything else keeps it as it is.
-/

namespace Yacc

variable {T V C L : Type*} {t : Tables T} {c : Client T V C}

/-! ## Notes -/

/-- The rule the next step reduces by. -/
def nextRule (t : Tables T) (p : State T V C) : Option Nat :=
  match p.accepting, t.defred (top p.stack), p.look with
  | true, _, _ => none
  | false, some n, _ => some n
  | false, none, none => none
  | false, none, some a =>
      match t.shift (top p.stack) a with
      | some _ => none
      | none => t.reduce (top p.stack) a

theorem nextRule_eq_some_iff {p : State T V C} {n : Nat} :
    nextRule t p = some n ↔ Reducing t p n := by
  obtain ⟨stack, look, errflag, accepting, client⟩ := p
  constructor
  · intro h
    simp only [nextRule] at h
    split at h
    · cases h
    · next hdef =>
        cases h
        exact ⟨rfl, .inl hdef⟩
    · cases h
    · next hdef =>
        split at h
        · cases h
        · next hshift => exact ⟨rfl, .inr ⟨hdef, _, rfl, hshift, h⟩⟩
  · rintro ⟨hacc, hdef | ⟨hdef, a, hlook, hshift, hreduce⟩⟩ <;> simp_all [nextRule]

section Trace

variable [DecidableEq T] (t c) (note : Nat → List V → C → List L)

/-- The note taken at a step. An action that fails leaves none. -/
def noted (p : State T V C) : List L :=
  match nextRule t p with
  | none => []
  | some n =>
      match c.action n (p.stack.map Prod.snd) p.client with
      | .ok _ _ => note n (p.stack.map Prod.snd) p.client
      | _ => []

/-- A part of a run that starts in `p`, passes through states with `P` only and ends in
`q`, and the notes taken in it. -/
inductive Trace (P : State T V C → Prop) (p : State T V C) : List L → State T V C → Prop
  | refl : Trace P p [] p
  | tail {ls : List L} {q q' : State T V C} : Trace P p ls q → step t c q = .run q' → P q' →
      Trace P p (ls ++ noted t c note q) q'

variable {t c note} {P : State T V C → Prop} {p q q' : State T V C} {ls : List L}

omit [DecidableEq T] in
theorem noted_of_action {n : Nat} {v : V} {x : C} (hred : Reducing t p n)
    (hact : c.action n (p.stack.map Prod.snd) p.client = .ok v x) :
    noted t c note p = note n (p.stack.map Prod.snd) p.client := by
  simp only [noted, nextRule_eq_some_iff.2 hred, hact]

omit [DecidableEq T] in
theorem noted_of_error {n : Nat} {x : C} (hred : Reducing t p n)
    (hact : c.action n (p.stack.map Prod.snd) p.client = .error x) : noted t c note p = [] := by
  simp only [noted, nextRule_eq_some_iff.2 hred, hact]

omit [DecidableEq T] in
theorem noted_of_not_reducing (h : ∀ n, ¬Reducing t p n) : noted t c note p = [] := by
  have hnone : nextRule t p = none := by
    rw [Option.eq_none_iff_forall_ne_some]
    exact fun n hn => h n (nextRule_eq_some_iff.1 hn)
  simp only [noted, hnone]

theorem Trace.reaches (h : Trace t c note P p ls q) : Reaches t c p q := by
  induction h with
  | refl => exact .refl
  | tail _ hstep _ ih => exact ih.tail hstep

theorem Trace.last (h : Trace t c note P p ls q) (hp : P p) : P q := by
  cases h with
  | refl => exact hp
  | tail _ _ hq => exact hq

theorem Trace.head (hstep : step t c p = .run q) (hq : P q) (h : Trace t c note P q ls q') :
    Trace t c note P p (noted t c note p ++ ls) q' := by
  induction h with
  | refl =>
      rw [List.append_nil]
      exact .tail .refl hstep hq
  | tail _ hlast hq' ih =>
      rw [← List.append_assoc]
      exact ih.tail hlast hq'

/-- Every run can be watched. -/
theorem exists_trace (note : Nat → List V → C → List L) (h : Reaches t c p q) :
    ∃ ls, Trace t c note (fun _ => True) p ls q := by
  induction h with
  | refl => exact ⟨[], .refl⟩
  | tail _ hstep ih =>
      obtain ⟨ls, hls⟩ := ih
      exact ⟨_, hls.tail hstep trivial⟩

/-- Every part of a run that stays in a scope can be watched. -/
theorem exists_trace_within (note : Nat → List V → C → List L) (h : Within t c p q) :
    ∃ ls, Trace t c note (fun r => p.stack <:+ r.stack) p ls q := by
  induction h with
  | refl => exact ⟨[], .refl⟩
  | tail _ hstep ih =>
      obtain ⟨ls, hls⟩ := ih
      exact ⟨_, hls.tail hstep.1 hstep.2⟩

theorem Trace.within (h : Trace t c note (fun r => p.stack <:+ r.stack) p ls q) :
    Within t c p q := by
  induction h with
  | refl => exact .refl
  | tail _ hstep hq' ih => exact ih.tail ⟨hstep, hq'⟩

/-- The notes of a run and its client: a relation that each action keeps, with its note
appended, and that does not depend on anything else. -/
theorem Trace.holds (h : Trace t c note P p ls q) {K : List L → C → Prop} (hp : K [] p.client)
    (hlex : ∀ ls y, K ls y → K ls (c.lex y).2)
    (hreport : ∀ ls y, K ls y → K ls (c.syntaxError y))
    (herror : ∀ ls n vs y z, K ls y → c.action n vs y = .error z → K ls z)
    (haction : ∀ ls r r' n v, Trace t c note P p ls r → step t c r = .run r' → P r' →
      Reducing t r n → c.action n (r.stack.map Prod.snd) r.client = .ok v r'.client →
      K ls r.client → K (ls ++ note n (r.stack.map Prod.snd) r.client) r'.client) :
    K ls q.client := by
  induction h with
  | refl => exact hp
  | @tail ls r r' htrace hstep hr' ih =>
      rcases step_client hstep with ⟨n, hred, ⟨v, hact⟩ | hact⟩ | ⟨hnone, hclient⟩
      · rw [noted_of_action hred hact]
        exact haction ls r r' n v htrace hstep hr' hred hact ih
      · rw [noted_of_error hred hact, List.append_nil]
        exact herror ls n _ _ _ ih hact
      · rw [noted_of_not_reducing hnone, List.append_nil]
        rcases hclient with hclient | hclient | hclient <;> rw [hclient]
        · exact ih
        · exact hlex ls _ ih
        · exact hreport ls _ ih

/-! ## Inside a scope -/

/-- The stack after a reduction whose action returned: the right side is gone and the left
side is on top. -/
theorem stack_of_action {n : Nat} {v : V} {x : C} (hred : Reducing t p n)
    (hact : c.action n (p.stack.map Prod.snd) p.client = .ok v x) (hstep : step t c p = .run q) :
    q.stack = (t.final, v) :: p.stack.drop (t.len n) ∧ t.goal n = true ∨
      q.stack = (t.goto n (top (p.stack.drop (t.len n))), v) :: p.stack.drop (t.len n) := by
  rw [step_of_reducing hred, Yacc.reduce, hact] at hstep
  simp only at hstep
  split at hstep
  · next hgoal =>
      cases hstep
      exact .inl ⟨rfl, hgoal.2⟩
  · cases push_run hstep
    exact .inr rfl

theorem client_of_action {n : Nat} {v : V} {x : C} (hred : Reducing t p n)
    (hact : c.action n (p.stack.map Prod.snd) p.client = .ok v x) (hstep : step t c p = .run q) :
    q.client = x := by
  rw [step_of_reducing hred, Yacc.reduce, hact] at hstep
  simp only at hstep
  split at hstep
  · cases hstep
    rfl
  · cases push_run hstep
    rfl

/-- A reduction inside a scope whose mark stays where it is: the mark is below the symbols
that are popped. -/
theorem Scope.below {E : Nat → Nat → Prop} {marks : Nat → Prop} {rule n : Nat}
    {J : C → C → Prop} (h : Scope t c E marks rule J) (hlen : t.len rule = 0) {e : Nat × V}
    {rest : List (Nat × V)} (hmark : marks e.1) (hred : Reducing t q n) {v : V} {x : C}
    (hact : c.action n (q.stack.map Prod.snd) q.client = .ok v x) (hstep : step t c q = .run q')
    (hq : e :: rest <:+ q.stack) (hq' : e :: rest <:+ q'.stack) :
    ∃ e' ∈ q.stack.drop (t.len n), marks e'.1 := by
  have hbelow : ∀ {x}, x ≠ e → e :: rest <:+ x :: q.stack.drop (t.len n) →
      ∃ e' ∈ q.stack.drop (t.len n), marks e'.1 := by
    intro x hne hsuffix
    rcases List.suffix_cons_iff.1 hsuffix with heq | hbefore
    · cases heq
      exact absurd rfl hne
    · exact ⟨e, hbefore.subset List.mem_cons_self, hmark⟩
  rcases stack_of_action hred hact hstep with ⟨hstack, -⟩ | hstack
  · refine hbelow ?_ (hstack ▸ hq')
    rintro rfl
    exact h.final hmark
  · by_cases hrule : n = rule
    · -- The header's own action has an empty right side and would push a second mark.
      subst hrule
      rw [hlen, List.drop_zero]
      exact ⟨e, hq.subset List.mem_cons_self, hmark⟩
    · refine hbelow ?_ (hstack ▸ hq')
      rintro rfl
      exact hrule (h.goto _ _ hmark)

end Trace

/-! ## Watching a run -/

section Watch

variable [DecidableEq T]

/-- The state after `k` steps that all lead to states with `P`, and the notes taken. -/
def watch (t : Tables T) (c : Client T V C) (note : Nat → List V → C → List L)
    (P : State T V C → Prop) [DecidablePred P] :
    Nat → State T V C → Option (List L × State T V C)
  | 0, p => some ([], p)
  | k + 1, p =>
      match step t c p with
      | .run q =>
          if P q then (watch t c note P k q).map fun r => (noted t c note p ++ r.1, r.2) else none
      | .done _ _ => none

theorem trace_of_watch {note : Nat → List V → C → List L} {P : State T V C → Prop}
    [DecidablePred P] {k : Nat} {p q : State T V C} {ls : List L}
    (h : watch t c note P k p = some (ls, q)) : Trace t c note P p ls q := by
  induction k generalizing p ls with
  | zero =>
      cases h
      exact .refl
  | succ k ih =>
      rw [watch] at h
      split at h
      · next p' hstep =>
          split at h
          · next hp' =>
              obtain ⟨⟨ls', q'⟩, hwatch, heq⟩ := Option.map_eq_some_iff.1 h
              cases heq
              exact (ih hwatch).head hstep hp'
          · cases h
      · cases h

end Watch

end Yacc
