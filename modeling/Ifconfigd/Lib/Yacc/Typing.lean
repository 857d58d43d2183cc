import Ifconfigd.Lib.Yacc.Steps

/-!
# Values of the right kind

A state was entered by one symbol, so it tells which values can stand beside it on the
stack. `Typing` collects what keeps that true; `Typing.reaches` carries it along a run, and
`crashing_of_done` says where a run can crash, which is in an action alone.
-/

namespace Yacc

variable {T V C : Type*}

/-- Values of kind `Ty st` are pushed with state `st`, if the client keeps `L`: what holds
of its state while `look` is the token ahead. -/
structure Typing (t : Tables T) (c : Client T V C) (E : Nat → Nat → Prop) (Ty : Nat → V → Prop)
    (L : Option T → C → Prop) : Prop where
  final : ∀ v, Ty t.final v
  shift : ∀ st a st' x, t.shift st a = some st' → L (some a) x → Ty st' (c.lval x)
  shiftError : ∀ st st' v, t.shiftError st = some st' → Ty st' v
  goto : ∀ (stack : List (Nat × V)) n x v y, Path E stack → t.Reduces (top stack) n →
    (∀ e ∈ stack, Ty e.1 e.2) → c.action n (stack.map Prod.snd) x = .ok v y →
    Ty (t.goto n (top (stack.drop (t.len n)))) v
  forget : ∀ look x, L look x → L none x
  lex : ∀ x, L none x → L (some (c.lex x).1) (c.lex x).2
  action : ∀ look n vs x, L look x → (c.action n vs x).Holds (L look)
  syntaxError : ∀ look x, L look x → L look (c.syntaxError x)

/-- Every value is of the kind of its state. -/
structure Typed (Ty : Nat → V → Prop) (L : Option T → C → Prop) (p : State T V C) : Prop where
  stack : ∀ e ∈ p.stack, Ty e.1 e.2
  look : L p.look p.client

section Typing

variable {t : Tables T} {c : Client T V C} {E : Nat → Nat → Prop} {Ty : Nat → V → Prop}
  {L : Option T → C → Prop} {p q : State T V C}

theorem Typing.erring (h : Typing t c E Ty L) (hp : Typed Ty L p) {x : C}
    (herr : Erring t c p x) : L p.look x := by
  cases herr with
  | @action n _ hred hact =>
      have hkept := h.action p.look n (p.stack.map Prod.snd) p.client hp.look
      rw [hact] at hkept
      exact hkept
  | token =>
      split
      · exact h.syntaxError _ _ hp.look
      · exact hp.look

variable [DecidableEq T]

theorem Typing.step (h : Typing t c E Ty L) (hp : Typed Ty L p) (hpath : Path E p.stack)
    (hstep : step t c p = .run q) : Typed Ty L q := by
  cases step_effect hstep with
  | fetch hcalls => exact ⟨hp.stack, h.lex _ (h.forget _ _ hp.look)⟩
  | resume => exact ⟨hp.stack, hp.look⟩
  | @shift a st hacc hdef hlook hshift =>
      have hahead := hp.look
      rw [hlook] at hahead
      have hv := h.shift _ _ _ _ hshift hahead
      exact ⟨List.forall_mem_cons.2 ⟨hv, hp.stack⟩, h.forget _ _ hahead⟩
  | @goal n v x hred hact hgoal =>
      have hkept := h.action p.look n (p.stack.map Prod.snd) p.client hp.look
      rw [hact] at hkept
      have hrest : ∀ e ∈ p.stack.drop (t.len n), Ty e.1 e.2 :=
        fun e he => hp.stack e (List.mem_of_mem_drop he)
      exact ⟨List.forall_mem_cons.2 ⟨h.final v, hrest⟩, hkept⟩
  | @reduce n v x hred hact hgoal =>
      have hkept := h.action p.look n (p.stack.map Prod.snd) p.client hp.look
      rw [hact] at hkept
      have hrest : ∀ e ∈ p.stack.drop (t.len n), Ty e.1 e.2 :=
        fun e he => hp.stack e (List.mem_of_mem_drop he)
      have hv := h.goto _ _ _ _ _ hpath hred.reduces hp.stack hact
      exact ⟨List.forall_mem_cons.2 ⟨hv, hrest⟩, hkept⟩
  | @recover x rest st herr hflag hpop =>
      obtain ⟨st', hst'⟩ := popToError_shiftError hpop
      have hrest : ∀ e ∈ rest, Ty e.1 e.2 :=
        fun e he => hp.stack e ((popToError_suffix hpop).subset he)
      exact ⟨List.forall_mem_cons.2 ⟨h.shiftError _ _ _ hst', hrest⟩, h.erring hp herr⟩
  | discard herr => exact ⟨hp.stack, h.forget _ _ (h.erring hp herr)⟩

/-- In a run from an empty stack, every value stays of the kind of its state. -/
theorem Typing.reaches (h : Typing t c E Ty L) (hs : Sound V t E) (hreach : Reaches t c p q)
    (hstack : p.stack = []) (hlook : L p.look p.client) : Typed Ty L q := by
  induction hreach with
  | refl =>
      refine ⟨?_, hlook⟩
      rw [hstack]
      exact List.forall_mem_nil _
  | tail hq hstep ih =>
      refine h.step ih (Reaches.path hs hq ?_) hstep
      rw [hstack]
      trivial

/-- A run crashes only in the action of a rule it reduces by. -/
theorem crashing_of_done {x : C} (h : Yacc.step t c p = .done .crash x) :
    ∃ n, Reducing t p n ∧ c.action n (p.stack.map Prod.snd) p.client = .crash := by
  have hpush : ∀ (st : Nat) (v : V) (r : State T V C), push t c st v r ≠ .done .crash x := by
    intro st v r hr
    rw [push] at hr
    split at hr <;> cases hr
  have hrecover : ∀ r : State T V C, Yacc.recover t c r ≠ .done .crash x := by
    intro r hr
    rw [Yacc.recover.eq_def] at hr
    split at hr
    · split at hr
      · cases hr
      · exact hpush _ _ _ hr
    · split at hr <;> cases hr
  have hreduce : ∀ n, Yacc.reduce t c n p = .done .crash x →
      c.action n (p.stack.map Prod.snd) p.client = .crash := by
    intro n hr
    rw [Yacc.reduce.eq_def] at hr
    split at hr
    · next hact => exact hact
    · exact absurd hr (hrecover _)
    · simp only at hr
      split at hr
      · cases hr
      · exact absurd hr (hpush _ _ _)
  rw [Yacc.step] at h
  split at h
  · cases h
  · split at h <;> cases h
  · next n hacc hdef => exact ⟨n, ⟨hacc, .inl hdef⟩, hreduce n h⟩
  · cases h
  · next a hacc hdef hlook =>
      split at h
      · exact absurd h (hpush _ _ _)
      · next n hshift hred =>
          exact ⟨n, ⟨hacc, .inr ⟨hdef, a, hlook, hshift, hred⟩⟩, hreduce n h⟩
      · exact absurd h (hrecover _)

end Typing

end Yacc
