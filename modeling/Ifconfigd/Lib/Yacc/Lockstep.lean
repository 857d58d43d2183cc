import Ifconfigd.Lib.Yacc.Abreast

/-!
# Two parsers in lockstep

The two parsers are abreast, with the same flags. What the second client is asked is
required along the runs of the first one only, so the side conditions of a simulation are
conditions on one run.
-/

namespace Yacc

variable {T V C D : Type*}

/-- The two parsers are in the same place. -/
structure Matches (Rv : Nat → V → V → Prop) (R : Option T → C → D → Prop) (p : State T V C)
    (q : State T V D) : Prop where
  stack : List.Forall₂ (Entries Rv) p.stack q.stack
  look : q.look = p.look
  errflag : q.errflag = p.errflag
  accepting : q.accepting = p.accepting
  client : R p.look p.client q.client

/-- Two steps end in the same way. -/
inductive Next.Matches (Rv : Nat → V → V → Prop) (R : Option T → C → D → Prop) :
    Next T V C → Next T V D → Prop
  | run {p : State T V C} {q : State T V D} (h : Yacc.Matches Rv R p q) :
      Next.Matches Rv R (.run p) (.run q)
  | done (status : Status) {x : C} {y : D} {look : Option T} (h : R look x y) :
      Next.Matches Rv R (.done status x) (.done status y)

/-- Whatever the first client does in a run from `p₀`, the second one can do. `R` relates
the clients with a given lookahead. -/
structure Lockstep (t : Tables T) (c : Client T V C) (d : Client T V D) [DecidableEq T]
    (Rv : Nat → V → V → Prop) (R : Option T → C → D → Prop) (p₀ : State T V C) : Prop where
  lex : ∀ p y, Reaches t c p₀ p → Calls t p → R none p.client y →
    (d.lex y).1 = (c.lex p.client).1 ∧
      R (some (c.lex p.client).1) (c.lex p.client).2 (d.lex y).2
  shift : ∀ st a st' x y, t.shift st a = some st' → R (some a) x y → Rv st' (c.lval x) (d.lval y)
  shiftError : ∀ st st' look x y, t.shiftError st = some st' → R look x y →
    Rv st' (c.lval x) (d.lval y)
  forget : ∀ look x y, R look x y → R none x y
  action : ∀ p stack y n, Reaches t c p₀ p → Reducing t p n →
    List.Forall₂ (Entries Rv) p.stack stack → R p.look p.client y →
      Outcome.Matches (fun v w => Rv t.final v w ∧ ∀ st, Rv (t.goto n st) v w) (R p.look)
        (c.action n (p.stack.map Prod.snd) p.client) (d.action n (stack.map Prod.snd) y)
  syntaxError : ∀ look x y, R look x y → R look (c.syntaxError x) (d.syntaxError y)
  overflow : ∀ look x y, R look x y → R look (c.overflow x) (d.overflow y)

section Lockstep

variable {t : Tables T} {c : Client T V C} {d : Client T V D} {Rv : Nat → V → V → Prop}
  {R : Option T → C → D → Prop} {p₀ p : State T V C} {q : State T V D}
  [DecidableEq T] (h : Lockstep t c d Rv R p₀)

include h

theorem Lockstep.keepsAbreast :
    KeepsAbreast t c d (fun e e' => e' = e) Rv R fun p _ => Reaches t c p₀ p where
  flags := ⟨rfl, congrArg (· - 1), fun heq => by rw [heq]⟩
  lex p q hreach hcalls hm := by
    have hclient := hm.client
    rw [hcalls.1] at hclient
    exact h.lex p q.client hreach hcalls hclient
  shift := h.shift
  shiftError := h.shiftError
  forget := h.forget
  action p q n hreach hred hm := h.action p q.stack q.client n hreach hred hm.stack hm.client
  syntaxError := h.syntaxError
  reportsFirst p q _ hm hp hq := absurd (hm.errflag.trans hp) hq
  reportsSecond p q _ hm hp hq := absurd (hm.errflag.symm.trans hq) hp
  overflow := h.overflow

/-- Matching parsers take matching steps. -/
theorem Lockstep.step (hreach : Reaches t c p₀ p) (hm : Matches Rv R p q) :
    Next.Matches Rv R (step t c p) (step t d q) := by
  have hstep := h.keepsAbreast.step hreach
    (⟨hm.stack, hm.look, hm.errflag, hm.accepting, hm.client⟩ : Abreast _ Rv R p q)
  generalize Yacc.step t c p = next at hstep
  generalize Yacc.step t d q = next' at hstep
  cases hstep with
  | run hm' => exact .run ⟨hm'.stack, hm'.look, hm'.errflag, hm'.accepting, hm'.client⟩
  | done status hR => exact .done status hR

/-- Matching parsers end alike, after the same number of steps. -/
theorem Lockstep.run (hreach : Reaches t c p₀ p) (hm : Matches Rv R p q) (fuel : Nat) :
    (run t c fuel p = none ∧ run t d fuel q = none) ∨
      ∃ status x y look, run t c fuel p = some (status, x) ∧
        run t d fuel q = some (status, y) ∧ R look x y := by
  induction fuel generalizing p q with
  | zero => exact .inl ⟨rfl, rfl⟩
  | succ fuel ih =>
      have hstep := h.step hreach hm
      rw [Yacc.run, Yacc.run]
      cases hp : Yacc.step t c p with
      | done status x =>
          rw [hp] at hstep
          generalize Yacc.step t d q = next at hstep
          cases hstep with
          | done _ hR => exact .inr ⟨status, x, _, _, rfl, rfl, hR⟩
      | run p' =>
          rw [hp] at hstep
          generalize Yacc.step t d q = next at hstep
          cases hstep with
          | run hm' => exact ih (hreach.tail hp) hm'

end Lockstep

end Yacc
