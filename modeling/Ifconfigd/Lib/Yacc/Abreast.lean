import Ifconfigd.Lib.Yacc.Steps
import Mathlib.Data.List.Forall2

/-!
# Two parsers abreast

Two clients of the same tables that return the same tokens keep `yyparse` on the same
path. Their values need not agree everywhere: `Rv` says, by the state a value was pushed
with, how the two values there are related, so that values no action reads can differ.
Nor need the flags agree that count the tokens since the last error: `E` relates them.

`KeepsAbreast` lists what the two clients are asked for. `P` restricts it to the pairs of
states that can come up.
-/

namespace Yacc

variable {T V C D : Type*}

/-- Two entries of the stack: the same state, with related values. -/
structure Entries (Rv : Nat → V → V → Prop) (e e' : Nat × V) : Prop where
  state : e'.1 = e.1
  value : Rv e.1 e.2 e'.2

/-- The two parsers are in the same place. -/
structure Abreast (E : Nat → Nat → Prop) (Rv : Nat → V → V → Prop)
    (R : Option T → C → D → Prop) (p : State T V C) (q : State T V D) : Prop where
  stack : List.Forall₂ (Entries Rv) p.stack q.stack
  look : q.look = p.look
  errflag : E p.errflag q.errflag
  accepting : q.accepting = p.accepting
  client : R p.look p.client q.client

/-- Two actions end in the same way. -/
inductive Outcome.Matches (Q : V → V → Prop) (R : C → D → Prop) : Outcome V C → Outcome V D → Prop
  | ok {v w : V} {x : C} {y : D} (hv : Q v w) (h : R x y) : Outcome.Matches Q R (.ok v x) (.ok w y)
  | error {x : C} {y : D} (h : R x y) : Outcome.Matches Q R (.error x) (.error y)
  | crash : Outcome.Matches Q R .crash .crash

theorem Outcome.Matches.mono {Q Q' : V → V → Prop} {R R' : C → D → Prop} {o : Outcome V C}
    {o' : Outcome V D} {P : C → Prop} (h : Outcome.Matches Q R o o') (hP : o.Holds P)
    (hQ : ∀ v w, Q v w → Q' v w) (hR : ∀ x y, R x y → P x → R' x y) :
    Outcome.Matches Q' R' o o' := by
  cases h with
  | ok hv hx => exact .ok (hQ _ _ hv) (hR _ _ hx hP)
  | error hx => exact .error (hR _ _ hx hP)
  | crash => exact .crash

theorem Outcome.Matches.trans_eq {Q : V → V → Prop} {R : C → D → Prop} {o : Outcome V C}
    {o' o'' : Outcome V D} (h : Outcome.Matches (· = ·) R o o')
    (h' : Outcome.Matches Q (· = ·) o' o'') : Outcome.Matches Q R o o'' := by
  cases h with
  | ok hv hR =>
      cases h' with
      | ok hv' hR' =>
          subst hv hR'
          exact .ok hv' hR
  | error hR =>
      cases h' with
      | error hR' =>
          subst hR'
          exact .error hR
  | crash =>
      cases h'
      exact .crash

/-- Two steps end in the same way: the runs go on in states with `S`, or end with clients
that `R` relates. -/
inductive Next.Relates (S : State T V C → State T V D → Prop) (R : Option T → C → D → Prop) :
    Next T V C → Next T V D → Prop
  | run {p : State T V C} {q : State T V D} (h : S p q) : Next.Relates S R (.run p) (.run q)
  | done (status : Status) {x : C} {y : D} {look : Option T} (h : R look x y) :
      Next.Relates S R (.done status x) (.done status y)

theorem Next.Relates.imp {S S' : State T V C → State T V D → Prop} {R : Option T → C → D → Prop}
    {n : Next T V C} {m : Next T V D} (h : Next.Relates S R n m)
    (hS : ∀ p q, n = .run p → m = .run q → S p q → S' p q) : Next.Relates S' R n m := by
  cases h with
  | run h => exact .run (hS _ _ rfl rfl h)
  | done status hR => exact .done status hR

/-- Flags that are treated alike: after an error both are set, and one of them makes its
parser skip tokens only if the other one does. -/
structure AlikeFlags (E : Nat → Nat → Prop) : Prop where
  set : E 3 3
  pred : ∀ {e e'}, E e e' → E (e - 1) (e' - 1)
  skips : ∀ {e e'}, E e e' → (e < 3 ↔ e' < 3)

/-- Flags that may differ as long as no tokens are skipped. -/
theorem alikeFlags_late : AlikeFlags fun e e' => e' = e ∨ e < 3 ∧ e' < 3 where
  set := .inl rfl
  pred h := by omega
  skips h := by omega

/-- What two clients do in states with `P` leaves the parsers abreast. -/
structure KeepsAbreast (t : Tables T) (c : Client T V C) (d : Client T V D)
    (E : Nat → Nat → Prop) (Rv : Nat → V → V → Prop) (R : Option T → C → D → Prop)
    (P : State T V C → State T V D → Prop) : Prop where
  flags : AlikeFlags E
  lex : ∀ p q, P p q → Calls t p → Abreast E Rv R p q →
    (d.lex q.client).1 = (c.lex p.client).1 ∧
      R (some (c.lex p.client).1) (c.lex p.client).2 (d.lex q.client).2
  shift : ∀ st a st' x y, t.shift st a = some st' → R (some a) x y → Rv st' (c.lval x) (d.lval y)
  shiftError : ∀ st st' look x y, t.shiftError st = some st' → R look x y →
    Rv st' (c.lval x) (d.lval y)
  forget : ∀ look x y, R look x y → R none x y
  action : ∀ p q n, P p q → Reducing t p n → Abreast E Rv R p q →
    Outcome.Matches (fun v w => Rv t.final v w ∧ ∀ st, Rv (t.goto n st) v w) (R p.look)
      (c.action n (p.stack.map Prod.snd) p.client) (d.action n (q.stack.map Prod.snd) q.client)
  syntaxError : ∀ look x y, R look x y → R look (c.syntaxError x) (d.syntaxError y)
  /-- Only one of the parsers reports a syntax error. -/
  reportsFirst : ∀ p q, P p q → Abreast E Rv R p q → p.errflag = 0 → q.errflag ≠ 0 →
    R p.look (c.syntaxError p.client) q.client
  reportsSecond : ∀ p q, P p q → Abreast E Rv R p q → p.errflag ≠ 0 → q.errflag = 0 →
    R p.look p.client (d.syntaxError q.client)
  overflow : ∀ look x y, R look x y → R look (c.overflow x) (d.overflow y)

section Abreast

variable {t : Tables T} {c : Client T V C} {d : Client T V D} {E : Nat → Nat → Prop}
  {Rv : Nat → V → V → Prop} {R : Option T → C → D → Prop}
  {P : State T V C → State T V D → Prop} {p : State T V C} {q : State T V D}

theorem top_of_entries {stack stack' : List (Nat × V)}
    (h : List.Forall₂ (Entries Rv) stack stack') : top stack' = top stack := by
  cases h with
  | nil => rfl
  | cons he _ => exact he.state

/-- The two stacks are popped to the same depth. -/
theorem popToError_of_entries {stack stack' : List (Nat × V)}
    (hs : List.Forall₂ (Entries Rv) stack stack') :
    (popToError t stack = none ∧ popToError t stack' = none) ∨
      ∃ rest rest' st st', popToError t stack = some (rest, st) ∧
        popToError t stack' = some (rest', st) ∧ List.Forall₂ (Entries Rv) rest rest' ∧
        t.shiftError st' = some st := by
  induction hs with
  | nil =>
      simp only [popToError]
      cases herr : t.shiftError 0 with
      | none => exact .inl ⟨rfl, rfl⟩
      | some st => exact .inr ⟨[], [], st, 0, rfl, rfl, .nil, herr⟩
  | @cons e e' stack stack' he hs ih =>
      simp only [popToError, he.state]
      cases herr : t.shiftError e.1 with
      | none => exact ih
      | some st => exact .inr ⟨_, _, st, e.1, rfl, rfl, .cons he hs, herr⟩

theorem Abreast.calls (hm : Abreast E Rv R p q) (h : Calls t p) : Calls t q := by
  rw [Calls, hm.look, hm.accepting, top_of_entries hm.stack]
  exact h

theorem Abreast.reducing (hm : Abreast E Rv R p q) {n : Nat} (h : Reducing t p n) :
    Reducing t q n := by
  obtain ⟨hacc, hrule⟩ := h
  refine ⟨hm.accepting.trans hacc, ?_⟩
  rw [hm.look, top_of_entries hm.stack]
  exact hrule

variable (h : KeepsAbreast t c d E Rv R P)

include h

theorem KeepsAbreast.push (hm : Abreast E Rv R p q) {st : Nat} {v w : V} (hv : Rv st v w) :
    Next.Relates (Abreast E Rv R) R (push t c st v p) (push t d st w q) := by
  rw [Yacc.push, Yacc.push, ← hm.stack.length_eq]
  split
  · exact .done _ (h.overflow _ _ _ hm.client)
  · exact .run ⟨.cons ⟨rfl, hv⟩ hm.stack, hm.look, hm.errflag, hm.accepting, hm.client⟩

/-- A syntax error: each parser reports it unless its flag is set. -/
theorem KeepsAbreast.erring (hP : P p q) (hm : Abreast E Rv R p q) :
    Abreast E Rv R (if p.errflag = 0 then { p with client := c.syntaxError p.client } else p)
      (if q.errflag = 0 then { q with client := d.syntaxError q.client } else q) := by
  by_cases hp : p.errflag = 0 <;> by_cases hq : q.errflag = 0
  · rw [if_pos hp, if_pos hq]
    exact ⟨hm.stack, hm.look, hm.errflag, hm.accepting, h.syntaxError _ _ _ hm.client⟩
  · rw [if_pos hp, if_neg hq]
    exact ⟨hm.stack, hm.look, hm.errflag, hm.accepting, h.reportsFirst p q hP hm hp hq⟩
  · rw [if_neg hp, if_pos hq]
    exact ⟨hm.stack, hm.look, hm.errflag, hm.accepting, h.reportsSecond p q hP hm hp hq⟩
  · rw [if_neg hp, if_neg hq]
    exact hm

variable [DecidableEq T]

theorem KeepsAbreast.recover (hm : Abreast E Rv R p q) :
    Next.Relates (Abreast E Rv R) R (recover t c p) (recover t d q) := by
  obtain ⟨stack, look, errflag, accepting, x⟩ := p
  obtain ⟨stack', look', errflag', accepting', y⟩ := q
  obtain ⟨hstack, rfl, hflag, rfl, hclient⟩ := hm
  rw [Yacc.recover, Yacc.recover]
  by_cases hlt : errflag < 3
  · rw [if_pos hlt, if_pos ((h.flags.skips hflag).1 hlt)]
    obtain ⟨hp, hq⟩ | ⟨rest, rest', st, st', hp, hq, hrest, herr⟩ :=
      popToError_of_entries (t := t) hstack
    · simp only [hp, hq]
      exact .done _ hclient
    · simp only [hp, hq]
      apply h.push
      · exact ⟨hrest, rfl, h.flags.set, rfl, hclient⟩
      · exact h.shiftError _ _ _ _ _ herr hclient
  · rw [if_neg hlt, if_neg fun hlt' => hlt ((h.flags.skips hflag).2 hlt')]
    split
    · exact .done _ hclient
    · exact .run ⟨hstack, rfl, hflag, rfl, h.forget _ _ _ hclient⟩

theorem KeepsAbreast.reduce (hP : P p q) {n : Nat} (hred : Reducing t p n)
    (hm : Abreast E Rv R p q) :
    Next.Relates (Abreast E Rv R) R (reduce t c n p) (reduce t d n q) := by
  have hact := h.action p q n hP hred hm
  rw [Yacc.reduce, Yacc.reduce]
  generalize c.action n (p.stack.map Prod.snd) p.client = o at hact
  generalize d.action n (q.stack.map Prod.snd) q.client = o' at hact
  cases hact with
  | crash => exact .done _ hm.client
  | error hx => exact h.recover ⟨hm.stack, hm.look, hm.errflag, hm.accepting, hx⟩
  | ok hv hx =>
      have hrest := List.forall₂_drop (t.len n) hm.stack
      dsimp only
      rw [top_of_entries hrest]
      split
      · exact .run ⟨.cons ⟨rfl, hv.1⟩ hrest, hm.look, hm.errflag, rfl, hx⟩
      · apply h.push
        · exact ⟨hrest, hm.look, hm.errflag, hm.accepting, hx⟩
        · exact hv.2 _

/-- Parsers abreast take steps that leave them abreast. -/
theorem KeepsAbreast.step (hP : P p q) (hm : Abreast E Rv R p q) :
    Next.Relates (Abreast E Rv R) R (step t c p) (step t d q) := by
  have herring := h.erring hP hm
  obtain ⟨stack, look, errflag, accepting, x⟩ := p
  obtain ⟨stack', look', errflag', accepting', y⟩ := q
  obtain ⟨hstack, rfl, hflag, rfl, hclient⟩ := hm
  have htop := top_of_entries hstack
  cases accepting' with
  | true =>
      cases look' with
      | none =>
          obtain ⟨hlex, hR⟩ := h.lex _ _ hP ⟨rfl, .inl rfl⟩ ⟨hstack, rfl, hflag, rfl, hclient⟩
          exact .run ⟨hstack, congrArg some hlex, hflag, rfl, hR⟩
      | some a =>
          simp only [Yacc.step]
          split
          · exact .done _ hclient
          · exact .run ⟨hstack, rfl, hflag, rfl, hclient⟩
  | false =>
      cases hdef : t.defred (top stack) with
      | some n =>
          simp only [Yacc.step, htop, hdef]
          exact h.reduce hP ⟨rfl, .inl hdef⟩ ⟨hstack, rfl, hflag, rfl, hclient⟩
      | none =>
          cases look' with
          | none =>
              simp only [Yacc.step, htop, hdef]
              obtain ⟨hlex, hR⟩ := h.lex _ _ hP ⟨rfl, .inr hdef⟩ ⟨hstack, rfl, hflag, rfl, hclient⟩
              exact .run ⟨hstack, congrArg some hlex, hflag, rfl, hR⟩
          | some a =>
              simp only [Yacc.step, htop, hdef]
              split
              · next st hshift =>
                  apply h.push
                  · exact ⟨hstack, rfl, h.flags.pred hflag, rfl, h.forget _ _ _ hclient⟩
                  · exact h.shift _ _ _ _ _ hshift hclient
              · next n hshift hreduce =>
                  exact h.reduce hP ⟨rfl, .inr ⟨hdef, a, rfl, hshift, hreduce⟩⟩
                    ⟨hstack, rfl, hflag, rfl, hclient⟩
              · exact h.recover herring

end Abreast

/-! ## Runs that end alike -/

section Ends

variable {t : Tables T} {c : Client T V C} {d : Client T V D} [DecidableEq T]

/-- A run from `p` ends with `r`. -/
def Ends (t : Tables T) (c : Client T V C) (p : State T V C) (r : Status × C) : Prop :=
  ∃ fuel, run t c fuel p = some r

/-- `q` comes after `p` in a run, and is not `p` itself. -/
abbrev ReachesLater (t : Tables T) (c : Client T V C) : State T V C → State T V C → Prop :=
  Relation.TransGen fun p q => step t c p = .run q

variable {p p' : State T V C} {q : State T V D} {r r' : Status × C}

theorem run_of_step (h : step t c p = .run p') (fuel : Nat) :
    run t c (fuel + 1) p = run t c fuel p' := by
  rw [run, h]

theorem Ends.of_step (h : step t c p = .run p') : Ends t c p r ↔ Ends t c p' r := by
  constructor
  · rintro ⟨fuel, hrun⟩
    cases fuel with
    | zero => cases hrun
    | succ fuel => exact ⟨fuel, by rwa [run_of_step h] at hrun⟩
  · rintro ⟨fuel, hrun⟩
    exact ⟨fuel + 1, by rwa [run_of_step h]⟩

theorem Ends.of_done {status : Status} {x : C} (h : step t c p = .done status x) :
    Ends t c p r ↔ r = (status, x) := by
  constructor
  · rintro ⟨fuel, hrun⟩
    cases fuel with
    | zero => cases hrun
    | succ fuel =>
        rw [run, h] at hrun
        exact (Option.some.inj hrun).symm
  · rintro rfl
    exact ⟨1, by rw [run, h]⟩

/-- Two states with the same next step. -/
theorem Ends.congr (h : step t c p = step t c p') : Ends t c p r ↔ Ends t c p' r := by
  refine exists_congr fun fuel => ?_
  cases fuel with
  | zero => exact Iff.rfl
  | succ fuel => rw [run, run, h]

theorem Ends.of_reaches (h : Reaches t c p p') : Ends t c p r ↔ Ends t c p' r := by
  induction h with
  | refl => exact Iff.rfl
  | tail _ hstep ih => exact ih.trans (Ends.of_step hstep)

theorem Ends.unique (h : Ends t c p r) (h' : Ends t c p r') : r' = r := by
  obtain ⟨fuel, hrun⟩ := h
  induction fuel generalizing p with
  | zero => cases hrun
  | succ fuel ih =>
      cases hstep : step t c p with
      | done status x =>
          rw [run, hstep] at hrun
          exact ((Ends.of_done hstep).1 h').trans (Option.some.inj hrun)
      | run p' =>
          rw [run_of_step hstep] at hrun
          exact ih ((Ends.of_step hstep).1 h') hrun

/-- A run that has gone on ends sooner. -/
theorem run_of_later (h : ReachesLater t c p p') {fuel : Nat} (hrun : run t c fuel p = some r) :
    ∃ fuel' < fuel, run t c fuel' p' = some r := by
  have hone {p p' : State T V C} (hstep : step t c p = .run p') {fuel : Nat}
      (hrun : run t c fuel p = some r) : ∃ fuel' < fuel, run t c fuel' p' = some r := by
    cases fuel with
    | zero => cases hrun
    | succ fuel => exact ⟨fuel, Nat.lt_succ_self fuel, by rwa [run_of_step hstep] at hrun⟩
  induction h with
  | single hstep => exact hone hstep hrun
  | tail _ hstep ih =>
      obtain ⟨k, hk, hrun'⟩ := ih
      obtain ⟨j, hj, hrun''⟩ := hone hstep hrun'
      exact ⟨j, Nat.lt_trans hj hk, hrun''⟩

/-- If two runs in states with `S` can always be followed to later states with `S`, or both
to their ends, then one of them ends if the other one does, with results in `Q`. -/
theorem Ends.follow {S : State T V C → State T V D → Prop} {Q : Status × C → Status × D → Prop}
    (hS : ∀ p q, S p q → (∃ p' q', ReachesLater t c p p' ∧ Reaches t d q q' ∧ S p' q') ∨
      ∃ r r', Ends t c p r ∧ Ends t d q r' ∧ Q r r') (h : S p q) (hp : Ends t c p r) :
    ∃ r', Ends t d q r' ∧ Q r r' := by
  obtain ⟨fuel, hrun⟩ := hp
  -- Strong induction on the number of steps the first run still takes.
  induction fuel using Nat.strongRecOn generalizing p q with
  | ind fuel ih =>
      obtain ⟨p', q', hp', hq', h'⟩ | ⟨r₀, r', hp', hq', hQ⟩ := hS p q h
      · obtain ⟨fuel', hlt, hrun'⟩ := run_of_later hp' hrun
        obtain ⟨r', hr', hQ⟩ := ih fuel' hlt h' hrun'
        exact ⟨r', (Ends.of_reaches hq').2 hr', hQ⟩
      · rw [hp'.unique ⟨fuel, hrun⟩]
        exact ⟨r', hq', hQ⟩

end Ends

end Yacc
