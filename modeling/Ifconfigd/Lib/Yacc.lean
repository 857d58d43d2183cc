import Mathlib.Logic.Relation
import Mathlib.Tactic.Common

/-!
# The parser skeleton of yacc

`yyparse` as the skeleton of Berkeley yacc runs it, over the tables of an arbitrary
grammar and a client that supplies the lexer, the semantic actions and the reaction
to errors. One `step` is one thing the skeleton does: call the lexer, shift, reduce,
or recover from an error.

Default reductions are made before a token is read. After an error the skeleton pops
its stack down to a state that can shift the `error` token, and until three tokens
were shifted it drops tokens that do not fit without another report.
-/

namespace Yacc

/-- The tables of a grammar, by state: the default reduction, the state after a token
or the `error` token is shifted, and the rule to reduce by before a token. For a
rule, the length of its right side, whether it makes the start symbol, and the state
after it was reduced over a state. -/
structure Tables (T : Type*) where
  eof : T
  defred : Nat → Option Nat
  shift : Nat → T → Option Nat
  reduce : Nat → T → Option Nat
  shiftError : Nat → Option Nat
  len : Nat → Nat
  goal : Nat → Bool
  goto : Nat → Nat → Nat
  final : Nat
  maxDepth : Nat

/-- How a semantic action ends: with the value of the left side, by `YYERROR`, or not
at all. -/
inductive Outcome (V C : Type*)
  | ok (v : V) (c : C)
  | error (c : C)
  | crash

/-- What the skeleton calls. An action gets the stack of values: the one of the last
symbol of its rule is in front. -/
structure Client (T V C : Type*) where
  lex : C → T × C
  lval : C → V
  action : Nat → List V → C → Outcome V C
  syntaxError : C → C
  overflow : C → C

/-- The variables of `yyparse`. The stack has its top in front and leaves out the
entry of state 0 at its bottom; `look` is `yychar`; `accepting` is set between a
reduction to the start symbol and the test for the end of the input. -/
structure State (T V C : Type*) where
  stack : List (Nat × V)
  look : Option T
  errflag : Nat
  accepting : Bool
  client : C

/-- How `yyparse` ends. -/
inductive Status
  | accept
  | abort
  | crash
  deriving DecidableEq

inductive Next (T V C : Type*)
  | run (p : State T V C)
  | done (status : Status) (c : C)

variable {T V C : Type*}

/-- `*yyssp`. -/
def top : List (Nat × V) → Nat
  | [] => 0
  | e :: _ => e.1

/-- `yyparse` at its beginning. -/
def State.initial (c : C) : State T V C := ⟨[], none, 0, false, c⟩

section Step

variable (t : Tables T) (c : Client T V C)

def fetch (p : State T V C) : State T V C :=
  { p with look := some (c.lex p.client).1, client := (c.lex p.client).2 }

/-- Push a state and a value, unless the stack is full. -/
def push (st : Nat) (v : V) (p : State T V C) : Next T V C :=
  if p.stack.length + 1 ≥ t.maxDepth then .done .abort (c.overflow p.client)
  else .run { p with stack := (st, v) :: p.stack }

/-- Pop down to a state that shifts the `error` token, and the state after it. -/
def popToError : List (Nat × V) → Option (List (Nat × V) × Nat)
  | [] => (t.shiftError 0).map fun st => ([], st)
  | e :: rest =>
      match t.shiftError e.1 with
      | some st => some (e :: rest, st)
      | none => popToError rest

/-- From the label `yyinrecovery` on. -/
def recover [DecidableEq T] (p : State T V C) : Next T V C :=
  if p.errflag < 3 then
    match popToError t p.stack with
    | none => .done .abort p.client
    | some (stack, st) => push t c st (c.lval p.client) { p with stack, errflag := 3 }
  else if p.look = some t.eof then .done .abort p.client
  else .run { p with look := none }

/-- From the label `yyreduce` on. -/
def reduce [DecidableEq T] (n : Nat) (p : State T V C) : Next T V C :=
  match c.action n (p.stack.map Prod.snd) p.client with
  | .crash => .done .crash p.client
  | .error client => recover t c { p with client }
  | .ok v client =>
      let stack := p.stack.drop (t.len n)
      if top stack = 0 ∧ t.goal n then
        .run { p with stack := (t.final, v) :: stack, accepting := true, client }
      else push t c (t.goto n (top stack)) v { p with stack, client }

/-- One step of `yyparse`. -/
def step [DecidableEq T] (p : State T V C) : Next T V C :=
  match p.accepting, t.defred (top p.stack), p.look with
  | true, _, none => .run (fetch c p)
  | true, _, some a =>
      if a = t.eof then .done .accept p.client else .run { p with accepting := false }
  | false, some n, _ => reduce t c n p
  | false, none, none => .run (fetch c p)
  | false, none, some a =>
      match t.shift (top p.stack) a, t.reduce (top p.stack) a with
      | some st, _ =>
          push t c st (c.lval p.client) { p with look := none, errflag := p.errflag - 1 }
      | none, some n => reduce t c n p
      | none, none =>
          recover t c (if p.errflag = 0 then { p with client := c.syntaxError p.client } else p)

/-- `yyparse`, for at most `fuel` steps. -/
def run [DecidableEq T] : Nat → State T V C → Option (Status × C)
  | 0, _ => none
  | fuel + 1, p =>
      match step t c p with
      | .done status client => some (status, client)
      | .run p' => run fuel p'

end Step

/-! ## Runs -/

section Runs

variable [DecidableEq T] (t : Tables T) (c : Client T V C)

/-- `q` comes after `p` in a run. -/
def Reaches : State T V C → State T V C → Prop :=
  Relation.ReflTransGen fun p q => step t c p = .run q

variable {t c}

/-- What each step keeps holds in every state a run comes to. -/
theorem Reaches.invariant {P : State T V C → Prop}
    (hstep : ∀ p q, P p → step t c p = .run q → P q) {p q : State T V C}
    (h : Reaches t c p q) (hp : P p) : P q := by
  induction h with
  | refl => exact hp
  | tail _ hlast ih => exact hstep _ _ ih hlast

/-- A finished run is a state it came to and a last step from there. -/
theorem exists_reaches_of_run {fuel : Nat} {p : State T V C} {r : Status × C}
    (h : run t c fuel p = some r) : ∃ q, Reaches t c p q ∧ step t c q = .done r.1 r.2 := by
  induction fuel generalizing p with
  | zero => cases h
  | succ fuel ih =>
      rw [run] at h
      split at h
      · next status client hstep =>
          cases h
          exact ⟨p, .refl, hstep⟩
      · next p' hstep =>
          obtain ⟨q, hq, hdone⟩ := ih h
          exact ⟨q, .head hstep hq, hdone⟩

theorem run_of_reaches {p q : State T V C} {status : Status} {client : C}
    (h : Reaches t c p q) (hdone : step t c q = .done status client) :
    ∃ fuel, run t c fuel p = some (status, client) := by
  induction h using Relation.ReflTransGen.head_induction_on with
  | refl => exact ⟨1, by simp [run, hdone]⟩
  | head hstep _ ih =>
      obtain ⟨fuel, hfuel⟩ := ih
      exact ⟨fuel + 1, by simp [run, hstep, hfuel]⟩

theorem Reaches.tail {p q r : State T V C} (h : Reaches t c p q) (hstep : step t c q = .run r) :
    Reaches t c p r :=
  Relation.ReflTransGen.tail h hstep

/-- Steps are deterministic: a state of a run comes before the last one. -/
theorem Reaches.of_done {p q r : State T V C} {status : Status} {x : C} (hq : Reaches t c p q)
    (hr : Reaches t c p r) (hdone : step t c r = .done status x) : Reaches t c q r := by
  have hunique : Relator.RightUnique fun p q => step t c p = .run q := by
    intro p q r hq hr
    rw [hq] at hr
    cases hr
    rfl
  rcases Relation.ReflTransGen.total_of_right_unique hunique hq hr with h | h
  · exact h
  · rcases Relation.ReflTransGen.cases_head h with rfl | ⟨s, hstep, -⟩
    · exact .refl
    · rw [hdone] at hstep
      cases hstep

end Runs

/-! ## Calls of the lexer -/

/-- The next step calls the lexer. -/
def Calls (t : Tables T) (p : State T V C) : Prop :=
  p.look = none ∧ (p.accepting = true ∨ t.defred (top p.stack) = none)

section Calls

variable {t : Tables T} {c : Client T V C}

theorem push_run {st : Nat} {v : V} {p q : State T V C} (h : push t c st v p = .run q) :
    q = { p with stack := (st, v) :: p.stack } := by
  rw [push.eq_def] at h
  split at h
  · cases h
  · cases h
    rfl

theorem push_done {st : Nat} {v : V} {p : State T V C} {status : Status} {x : C}
    (h : push t c st v p = .done status x) : x = c.overflow p.client := by
  rw [push.eq_def] at h
  split at h
  · cases h
    rfl
  · cases h

variable [DecidableEq T]

instance (t : Tables T) (p : State T V C) : Decidable (Calls t p) :=
  inferInstanceAs (Decidable (_ ∧ _))

theorem step_of_calls {p : State T V C} (h : Calls t p) : step t c p = .run (fetch c p) := by
  obtain ⟨stack, look, errflag, accepting, client⟩ := p
  obtain ⟨rfl, hcall⟩ := h
  cases accepting with
  | true => rfl
  | false =>
      have hdef : t.defred (top stack) = none := hcall.resolve_left Bool.false_ne_true
      simp [step, hdef]

/-- Recovering pushes the state after the `error` token or drops the lookahead. -/
theorem recover_run {p q : State T V C} (h : recover t c p = .run q) :
    (∃ stack st v, q = { p with stack := (st, v) :: stack, errflag := 3 }) ∨
      q = { p with look := none } := by
  rw [recover.eq_def] at h
  split at h
  · split at h
    · cases h
    · exact .inl ⟨_, _, _, push_run h⟩
  · split at h
    · cases h
    · cases h
      exact .inr rfl

/-- After a reduction the lookahead is the same or was dropped, and the parser is
accepting only with the final state on top. -/
theorem reduce_run {n : Nat} {p q : State T V C} (h : reduce t c n p = .run q)
    (hp : p.accepting = false) :
    (q.look = p.look ∨ q.look = none) ∧ (q.accepting = true → top q.stack = t.final) := by
  rw [reduce.eq_def] at h
  split at h
  · cases h
  · rcases recover_run h with ⟨stack, st, v, rfl⟩ | rfl
    · exact ⟨.inl rfl, fun hacc => absurd (hp.symm.trans hacc) (by decide)⟩
    · exact ⟨.inr rfl, fun hacc => absurd (hp.symm.trans hacc) (by decide)⟩
  · simp only at h
    split at h
    · cases h
      exact ⟨.inl rfl, fun _ => rfl⟩
    · cases push_run h
      exact ⟨.inl rfl, fun hacc => absurd (hp.symm.trans hacc) (by decide)⟩

/-- A step calls the lexer, or the lookahead is the same or gone. -/
theorem step_run {p q : State T V C} (h : step t c p = .run q)
    (hp : p.accepting = true → top p.stack = t.final) :
    (q.accepting = true → top q.stack = t.final) ∧
      ((Calls t p ∧ q = fetch c p) ∨ q.look = p.look ∨ q.look = none) := by
  by_cases hcall : Calls t p
  · rw [step_of_calls hcall] at h
    cases h
    exact ⟨hp, .inl ⟨hcall, rfl⟩⟩
  have hstay : (q.accepting = true → top q.stack = t.final) ∧
      (q.look = p.look ∨ q.look = none) := by
    obtain ⟨stack, look, errflag, accepting, client⟩ := p
    cases accepting with
    | true =>
        cases look with
        | none => exact absurd ⟨rfl, .inl rfl⟩ hcall
        | some a =>
            simp only [step] at h
            split at h
            · cases h
            · cases h
              exact ⟨Bool.noConfusion, .inl rfl⟩
    | false =>
        cases hdef : t.defred (top stack) with
        | some n =>
            simp only [step, hdef] at h
            exact (reduce_run h rfl).symm
        | none =>
            cases look with
            | none => exact absurd ⟨rfl, .inr hdef⟩ hcall
            | some a =>
                simp only [step, hdef] at h
                split at h
                · cases push_run h
                  exact ⟨Bool.noConfusion, .inr rfl⟩
                · exact (reduce_run h rfl).symm
                · split at h
                  all_goals
                    rcases recover_run h with ⟨stack', st, v, rfl⟩ | rfl
                    · exact ⟨Bool.noConfusion, .inl rfl⟩
                    · exact ⟨Bool.noConfusion, .inr rfl⟩
  exact ⟨hstay.1, .inr hstay.2⟩

theorem Reaches.accepting_top {p q : State T V C} (h : Reaches t c p q)
    (hp : p.accepting = false) (hq : q.accepting = true) : top q.stack = t.final := by
  refine h.invariant (P := fun q => q.accepting = true → top q.stack = t.final) ?_ ?_ hq
  · intro p q hp hstep
    exact (step_run hstep hp).1
  · intro hp'
    rw [hp] at hp'
    cases hp'

/-- A token that is the lookahead was returned by a call of the lexer. -/
theorem exists_calls_of_look {p q : State T V C} (h : Reaches t c p q) (hlook : p.look = none)
    (hacc : p.accepting = false) {a : T} (hq : q.look = some a) :
    ∃ r, Reaches t c p r ∧ Calls t r ∧ (c.lex r.client).1 = a := by
  induction h with
  | refl =>
      rw [hlook] at hq
      cases hq
  | @tail q r hreach hstep ih =>
      rcases (step_run hstep (Reaches.accepting_top hreach hacc)).2 with ⟨hcalls, rfl⟩ | hsame | hnone
      · exact ⟨q, hreach, hcalls, Option.some.inj hq⟩
      · exact ih (hsame.symm.trans hq)
      · rw [hnone] at hq
        cases hq

/-- After a call of the lexer comes the state with its token. -/
theorem Reaches.fetch {p q : State T V C} {status : Status} {x : C} (h : Reaches t c p q)
    (hcalls : Calls t p) (hdone : step t c q = .done status x) : Reaches t c (fetch c p) q := by
  rcases Relation.ReflTransGen.cases_head h with rfl | ⟨r, hstep, hr⟩
  · rw [step_of_calls hcalls] at hdone
    cases hdone
  · rw [step_of_calls hcalls] at hstep
    cases hstep
    exact hr

/-- The reasons for which `yyparse` returns: the end of the input, a full stack, or no
state to recover in. -/
inductive Stops (t : Tables T) (c : Client T V C) (q : State T V C) (x : C) : Prop
  | eof (h : q.look = some t.eof)
  | overflow (y : C) (h : x = c.overflow y)
  | lost (h : popToError t q.stack = none)
      (hred : ∀ n, t.defred (top q.stack) = some n →
        ∃ y, c.action n (q.stack.map Prod.snd) q.client = .error y)

theorem recover_done {p : State T V C} {status : Status} {x : C}
    (h : recover t c p = .done status x) :
    p.look = some t.eof ∨ (∃ y, x = c.overflow y) ∨ popToError t p.stack = none := by
  rw [recover.eq_def] at h
  split at h
  · split at h
    · next hpop => exact .inr (.inr hpop)
    · exact .inr (.inl ⟨_, push_done h⟩)
  · split at h
    · next hlook => exact .inl hlook
    · cases h

theorem reduce_done {n : Nat} {p : State T V C} {status : Status} {x : C}
    (h : reduce t c n p = .done status x) (hne : status ≠ .crash) :
    p.look = some t.eof ∨ (∃ y, x = c.overflow y) ∨
      (popToError t p.stack = none ∧
        ∃ y, c.action n (p.stack.map Prod.snd) p.client = .error y) := by
  rw [reduce.eq_def] at h
  split at h
  · cases h
    exact absurd rfl hne
  · next client hact =>
      rcases recover_done h with hlook | hover | hpop
      · exact .inl hlook
      · exact .inr (.inl hover)
      · exact .inr (.inr ⟨hpop, client, hact⟩)
  · simp only at h
    split at h
    · cases h
    · exact .inr (.inl ⟨_, push_done h⟩)

theorem stops_of_done {q : State T V C} {status : Status} {x : C}
    (h : step t c q = .done status x) (hne : status ≠ .crash) : Stops t c q x := by
  obtain ⟨stack, look, errflag, accepting, client⟩ := q
  cases accepting with
  | true =>
      cases look with
      | none => cases h
      | some a =>
          simp only [step] at h
          split at h
          · next heof => exact .eof (congrArg some heof)
          · cases h
  | false =>
      cases hdef : t.defred (top stack) with
      | some n =>
          simp only [step, hdef] at h
          rcases reduce_done h hne with hlook | ⟨y, hy⟩ | ⟨hpop, herr⟩
          · exact .eof hlook
          · exact .overflow y hy
          · refine .lost hpop fun n' hn' => ?_
            cases hdef.symm.trans hn'
            exact herr
      | none =>
          have hlost : ∀ n, t.defred (top stack) = some n →
              ∃ y, c.action n (stack.map Prod.snd) client = .error y := by
            intro n hn
            cases hdef.symm.trans hn
          cases look with
          | none =>
              simp only [step, hdef] at h
              cases h
          | some a =>
              simp only [step, hdef] at h
              split at h
              · exact .overflow _ (push_done h)
              · rcases reduce_done h hne with hlook | ⟨y, hy⟩ | ⟨hpop, -⟩
                · exact .eof hlook
                · exact .overflow y hy
                · exact .lost hpop hlost
              · rcases recover_done h with hlook | ⟨y, hy⟩ | hpop
                · refine .eof ?_
                  split at hlook <;> exact hlook
                · exact .overflow y hy
                · refine .lost ?_ hlost
                  split at hpop <;> exact hpop

end Calls

/-! ## Invariants of the client -/

/-- Where an action comes to, if anywhere, satisfies `P`. -/
def Outcome.Holds (P : C → Prop) : Outcome V C → Prop
  | .ok _ c | .error c => P c
  | .crash => True

theorem Outcome.Holds.mono {P Q : C → Prop} {o : Outcome V C} (h : o.Holds P)
    (hPQ : ∀ x, P x → Q x) : o.Holds Q := by
  cases o with
  | ok v x => exact hPQ x h
  | error x => exact hPQ x h
  | crash => trivial

/-- Everything the skeleton calls keeps `P`. -/
structure Client.Keeps (c : Client T V C) (P : C → Prop) : Prop where
  lex : ∀ x, P x → P (c.lex x).2
  action : ∀ n vs x, P x → (c.action n vs x).Holds P
  syntaxError : ∀ x, P x → P (c.syntaxError x)
  overflow : ∀ x, P x → P (c.overflow x)

def Next.client : Next T V C → C
  | .run p => p.client
  | .done _ c => c

section Keeps

variable {t : Tables T} {c : Client T V C} {P : C → Prop}

theorem Client.Keeps.push (h : c.Keeps P) {p : State T V C} (hp : P p.client) (st : Nat) (v : V) :
    P (push t c st v p).client := by
  simp only [Yacc.push]
  split
  · exact h.overflow _ hp
  · exact hp

variable [DecidableEq T]

theorem Client.Keeps.recover (h : c.Keeps P) {p : State T V C} (hp : P p.client) :
    P (recover t c p).client := by
  simp only [Yacc.recover]
  split
  · split
    · exact hp
    · exact h.push (p := { p with stack := _, errflag := 3 }) hp _ _
  · split <;> exact hp

theorem Client.Keeps.reduce (h : c.Keeps P) {p : State T V C} (hp : P p.client) (n : Nat) :
    P (reduce t c n p).client := by
  have hact := h.action n (p.stack.map Prod.snd) p.client hp
  simp only [Yacc.reduce]
  split
  · exact hp
  · next client heq =>
      rw [heq] at hact
      exact h.recover (p := { p with client }) hact
  · next v client heq =>
      rw [heq] at hact
      split
      · exact hact
      · exact h.push (p := { p with stack := _, client }) hact _ _

theorem Client.Keeps.step (h : c.Keeps P) {p : State T V C} (hp : P p.client) :
    P (step t c p).client := by
  simp only [Yacc.step]
  split
  · exact h.lex _ hp
  · split <;> exact hp
  · exact h.reduce hp _
  · exact h.lex _ hp
  · split
    · exact h.push (p := { p with look := none, errflag := p.errflag - 1 }) hp _ _
    · exact h.reduce hp _
    · apply h.recover
      split
      · exact h.syntaxError _ hp
      · exact hp

theorem Client.Keeps.run (h : c.Keeps P) {fuel : Nat} {p : State T V C} {status : Status} {x : C}
    (hrun : run t c fuel p = some (status, x)) (hp : P p.client) : P x := by
  obtain ⟨q, hreach, hdone⟩ := exists_reaches_of_run hrun
  have hq : P q.client := by
    refine hreach.invariant (P := fun p => P p.client) ?_ hp
    intro p q hp hstep
    have hnext := h.step (t := t) hp
    rwa [hstep] at hnext
  have hnext := h.step (t := t) hq
  rwa [hdone] at hnext

end Keeps

/-! ## The stack as a path -/

/-- Neighbours on the stack, down to state 0 at its bottom, are related by `E`. -/
def Path (E : Nat → Nat → Prop) : List (Nat × V) → Prop
  | [] => True
  | e :: rest => E (top rest) e.1 ∧ Path E rest

/-- The rules a state can reduce by. -/
def Tables.Reduces (t : Tables T) (st n : Nat) : Prop :=
  t.defred st = some n ∨ ∃ a, t.reduce st a = some n

/-- What is pushed on a path lengthens it. Only for a reduction to the start symbol
over state 0 the table of the `goto`s is not asked. -/
structure Sound (V : Type*) (t : Tables T) (E : Nat → Nat → Prop) : Prop where
  final : E 0 t.final
  shift : ∀ st a st', t.shift st a = some st' → E st st'
  shiftError : ∀ st st', t.shiftError st = some st' → E st st'
  goto : ∀ (stack : List (Nat × V)) (n : Nat), Path E stack → t.Reduces (top stack) n →
    ¬(top (stack.drop (t.len n)) = 0 ∧ t.goal n) →
    E (top (stack.drop (t.len n))) (t.goto n (top (stack.drop (t.len n))))

section Path

variable {E : Nat → Nat → Prop} {t : Tables T} {c : Client T V C}

theorem Path.drop {stack : List (Nat × V)} (h : Path E stack) (k : Nat) :
    Path E (stack.drop k) := by
  induction k generalizing stack with
  | zero => exact h
  | succ k ih =>
      cases stack with
      | nil => trivial
      | cons e rest => exact ih h.2

/-- The stack of a run that goes on is a path. -/
def Next.Path (E : Nat → Nat → Prop) : Next T V C → Prop
  | .run p => Yacc.Path E p.stack
  | .done _ _ => True

theorem push_path {p : State T V C} (h : Path E p.stack) {st : Nat} (hst : E (top p.stack) st)
    (v : V) : (push t c st v p).Path E := by
  simp only [push]
  split
  · trivial
  · exact ⟨hst, h⟩

theorem popToError_path (hs : Sound V t E) {stack rest : List (Nat × V)} {st : Nat}
    (h : Path E stack) (hpop : popToError t stack = some (rest, st)) :
    Path E rest ∧ E (top rest) st := by
  induction stack with
  | nil =>
      rw [popToError, Option.map_eq_some_iff] at hpop
      obtain ⟨st', hst', heq⟩ := hpop
      cases heq
      exact ⟨trivial, hs.shiftError _ _ hst'⟩
  | cons e stack ih =>
      rw [popToError] at hpop
      split at hpop
      · next st' hst' =>
          cases hpop
          exact ⟨h, hs.shiftError _ _ hst'⟩
      · exact ih h.2 hpop

variable [DecidableEq T]

theorem recover_path (hs : Sound V t E) {p : State T V C} (h : Path E p.stack) :
    (recover t c p).Path E := by
  simp only [recover]
  split
  · split
    · trivial
    · next stack st hpop =>
        obtain ⟨hpath, hst⟩ := popToError_path hs h hpop
        exact push_path (p := { p with stack, errflag := 3 }) hpath hst _
  · split
    · trivial
    · exact h

theorem reduce_path (hs : Sound V t E) {p : State T V C} (h : Path E p.stack) {n : Nat}
    (hn : t.Reduces (top p.stack) n) : (reduce t c n p).Path E := by
  simp only [reduce]
  split
  · trivial
  · next client _ => exact recover_path hs (p := { p with client }) h
  · next v client _ =>
      have hdrop := h.drop (t.len n)
      split
      · next hgoal =>
          refine ⟨?_, hdrop⟩
          rw [hgoal.1]
          exact hs.final
      · next hgoal =>
          exact push_path (p := { p with stack := _, client }) hdrop (hs.goto _ n h hn hgoal) _

theorem step_path (hs : Sound V t E) {p : State T V C} (h : Path E p.stack) :
    (step t c p).Path E := by
  simp only [step]
  split
  · exact h
  · split
    · trivial
    · exact h
  · next n _ hdef => exact reduce_path hs h (.inl hdef)
  · exact h
  · split
    · next st _ hshift =>
        exact push_path (p := { p with look := none, errflag := p.errflag - 1 }) h
          (hs.shift _ _ _ hshift) _
    · next n _ hred => exact reduce_path hs h (.inr ⟨_, hred⟩)
    · apply recover_path hs
      split <;> exact h

theorem Reaches.path (hs : Sound V t E) {p q : State T V C} (hreach : Reaches t c p q)
    (h : Path E p.stack) : Path E q.stack := by
  refine hreach.invariant (P := fun p => Path E p.stack) ?_ h
  intro p q hp hstep
  have hnext := step_path hs (c := c) hp
  rwa [hstep] at hnext

end Path

/-! ## After the end of the input -/

/-- Once the end of the input is the lookahead it stays so: `P` is kept by the actions
that can still run, where `Q` holds of the states that can be on top of the stack. -/
structure EndStable (t : Tables T) (c : Client T V C) (Q : Nat → Prop) (P : C → Prop) : Prop where
  noShift : ∀ st, t.shift st t.eof = none
  final : Q t.final
  goto : ∀ n st, Q (t.goto n st)
  shiftError : ∀ st st', t.shiftError st = some st' → Q st'
  defred : ∀ st n vs x, Q st → t.defred st = some n → P x → (c.action n vs x).Holds P
  reduce : ∀ st n vs x, t.reduce st t.eof = some n → P x → (c.action n vs x).Holds P
  syntaxError : ∀ x, P x → P (c.syntaxError x)
  overflow : ∀ x, P x → P (c.overflow x)

/-- The end of the input is the lookahead, or the run is over, and `P` holds. -/
def Ended (t : Tables T) (Q : Nat → Prop) (P : C → Prop) : Next T V C → Prop
  | .run p => p.look = some t.eof ∧ Q (top p.stack) ∧ P p.client
  | .done _ x => P x

section EndStable

variable {t : Tables T} {c : Client T V C} {Q : Nat → Prop} {P : C → Prop}

theorem EndStable.push (h : EndStable t c Q P) {p : State T V C} (hlook : p.look = some t.eof)
    (hp : P p.client) {st : Nat} (hst : Q st) (v : V) : Ended t Q P (push t c st v p) := by
  simp only [Yacc.push]
  split
  · exact h.overflow _ hp
  · exact ⟨hlook, hst, hp⟩

theorem popToError_shiftError {stack rest : List (Nat × V)} {st : Nat}
    (h : popToError t stack = some (rest, st)) : ∃ st', t.shiftError st' = some st := by
  induction stack with
  | nil =>
      rw [popToError, Option.map_eq_some_iff] at h
      obtain ⟨st', hst', heq⟩ := h
      cases heq
      exact ⟨0, hst'⟩
  | cons e stack ih =>
      rw [popToError] at h
      split at h
      · next st' hst' =>
          cases h
          exact ⟨e.1, hst'⟩
      · exact ih h

theorem popToError_suffix {stack rest : List (Nat × V)} {st : Nat}
    (h : popToError t stack = some (rest, st)) : rest <:+ stack := by
  induction stack with
  | nil =>
      rw [popToError, Option.map_eq_some_iff] at h
      obtain ⟨_, -, heq⟩ := h
      cases heq
      exact List.suffix_rfl
  | cons e stack ih =>
      rw [popToError] at h
      split at h
      · cases h
        exact List.suffix_rfl
      · exact (ih h).trans (List.suffix_cons e stack)

variable [DecidableEq T]

theorem EndStable.recover (h : EndStable t c Q P) {p : State T V C}
    (hlook : p.look = some t.eof) (hp : P p.client) : Ended t Q P (recover t c p) := by
  simp only [Yacc.recover]
  split
  · split
    · exact hp
    · next stack st hpop =>
        obtain ⟨st', hst'⟩ := popToError_shiftError hpop
        exact h.push (p := { p with stack, errflag := 3 }) hlook hp (h.shiftError _ _ hst') _
  · exact hp

theorem EndStable.reduceBy (h : EndStable t c Q P) {p : State T V C}
    (hlook : p.look = some t.eof) {n : Nat} (hp : P p.client)
    (hact : (c.action n (p.stack.map Prod.snd) p.client).Holds P) :
    Ended t Q P (Yacc.reduce t c n p) := by
  simp only [Yacc.reduce]
  split
  · exact hp
  · next client heq =>
      rw [heq] at hact
      exact h.recover (p := { p with client }) hlook hact
  · next v client heq =>
      rw [heq] at hact
      split
      · exact ⟨hlook, h.final, hact⟩
      · exact h.push (p := { p with stack := _, client }) hlook hact (h.goto _ _) _

theorem EndStable.step (h : EndStable t c Q P) {p : State T V C} (hp : Ended t Q P (.run p)) :
    Ended t Q P (step t c p) := by
  obtain ⟨stack, look, errflag, accepting, client⟩ := p
  obtain ⟨rfl, htop, hclient⟩ := hp
  simp only [Yacc.step]
  split
  · next hnone => cases hnone
  · split
    · exact hclient
    · exact ⟨rfl, htop, hclient⟩
  · next n _ hdef => exact h.reduceBy rfl hclient (h.defred _ _ _ _ htop hdef hclient)
  · next hnone => cases hnone
  · next a hsome =>
      cases hsome
      rw [h.noShift]
      split
      · next hshift => cases hshift
      · next n _ hred => exact h.reduceBy rfl hclient (h.reduce _ _ _ _ hred hclient)
      · split
        · exact h.recover rfl (h.syntaxError _ hclient)
        · exact h.recover rfl hclient

/-- What holds when the end of the input was read still holds when the run is over. -/
theorem EndStable.run (h : EndStable t c Q P) {p q : State T V C} {status : Status} {x : C}
    (hp : Ended t Q P (.run p)) (hreach : Reaches t c p q)
    (hdone : Yacc.step t c q = .done status x) : P x := by
  have hq : Ended t Q P (.run q) := by
    refine hreach.invariant (P := fun p => Ended t Q P (.run p)) ?_ hp
    intro p q hp hstep
    rw [← hstep]
    exact h.step hp
  have hx := h.step hq
  rwa [hdone] at hx

end EndStable

end Yacc
